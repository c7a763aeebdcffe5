import BuildGraph.Proofs.Markers
import Mathlib.Data.List.Forall2
import Mathlib.Data.List.Sort

/-!
# Written descriptions

A description is written as a table: a literal template as a text, a composed one as a sequence of
texts and markers, lists as sequences, flags as booleans, variables as fields, and what is not
given as a field that is absent.  What a table holds for a rule or a target is one list of field
names and contents (`RuleTemplate.fields`, `Target.fields`).  From it come both the table that is
written (`Description.toValue`) and what makes any table a writing of the description
(`Description.WrittenAs`), whatever identities its tables have and in whatever order they hold
their fields.

Every writing is read as the description that was written: fragment by fragment, field by field
(`Content.Reads`), record by record.  A fragment with an unknown name is written as a marker too,
so it is read back only if the name is really that of no keyword (`Fragment.Regular`).
-/

namespace BuildGraph

open Script (Error Identity Key Value)

variable {α β : Type}

/-! ## Sequences and records -/

/-- A value is a sequence whose items are written in a form, one for each of a list. -/
inductive Lists (form : α → Value → Prop) (as : List α) : Value → Prop
  | table {identity : Identity} {items : List Value} (h : List.Forall₂ form as items) :
      Lists form as (.table { identity } items [])

/-- A table with the fields that are not absent. -/
def Script.Value.ofPresent (fields : List (String × Value)) : Value :=
  .ofFields (fields.filter fun f => !f.2.isNil)

theorem Lists.ofList {form : α → Value → Prop} {write : α → Value} {as : List α}
    (h : ∀ a ∈ as, form a (write a)) : Lists form as (.ofList (as.map write)) := by
  refine .table ?_
  rw [List.forall₂_map_right_iff, List.forall₂_same]
  exact h

/-! ## Templates -/

/-- How a fragment is written. -/
inductive Fragment.WrittenAs : Fragment → Value → Prop
  | literal (text : String) : WrittenAs (.literal text) (.ofString text)
  | keyword (k : Keyword) (identity : Identity) :
      WrittenAs (.keyword k) (.markerAs identity k.name)
  | unknown (name : String) (identity : Identity) :
      WrittenAs (.unknown name) (.markerAs identity name)

/-- The value that a fragment is written as; markers are taken from the table of markers. -/
def Fragment.toValue : Fragment → Value
  | .literal text => .ofString text
  | .keyword k => Value.keywordTable.get k.name
  | .unknown name => Value.keywordTable.get name

/-- A fragment that does not keep the name of a keyword as an unknown one. -/
def Fragment.Regular : Fragment → Prop
  | .unknown name => Keyword.ofName? name = none
  | _ => True

instance : DecidablePred Fragment.Regular
  | .literal _ => .isTrue trivial
  | .keyword _ => .isTrue trivial
  | .unknown name => inferInstanceAs (Decidable (Keyword.ofName? name = none))

/-- How a template is written. -/
inductive Template.WrittenAs : Template → Value → Prop
  | literal (text : String) : WrittenAs (.literal text) (.ofString text)
  | composed {fs : List Fragment} {v : Value} (h : Lists Fragment.WrittenAs fs v) :
      WrittenAs (.composed fs) v

/-- The value that a template is written as. -/
def Template.toValue : Template → Value
  | .literal text => .ofString text
  | .composed fs => .ofList (fs.map Fragment.toValue)

/-! ## Contents of fields -/

/-- What a field of a rule or a target holds. -/
inductive Content where
  /-- A field that is not there. -/
  | absent
  /-- A text without markers. -/
  | text (s : String)
  | texts (ss : List String)
  | template (t : Template)
  | templates (ts : List Template)
  | rows (tss : List (List Template))
  | flag (b : Bool)
  | vars (b : Bindings)

namespace Content

/-- The content of a field that may be absent. -/
def option (content : α → Content) : Option α → Content
  | none => .absent
  | some a => content a

/-- The field of a variable. -/
def variableField (b : String × String) : Key × Value := (.text b.1.toUTF8, .ofString b.2)

/-- How the content of a field is written; the field that is not there is `nil`. -/
inductive WrittenAs : Content → Value → Prop
  | absent : WrittenAs .absent .nil
  | text (s : String) : WrittenAs (.text s) (.ofString s)
  | texts {ss : List String} {v : Value} (h : Lists (fun s v => v = .ofString s) ss v) :
      WrittenAs (.texts ss) v
  | template {t : Template} {v : Value} (h : t.WrittenAs v) : WrittenAs (.template t) v
  | templates {ts : List Template} {v : Value} (h : Lists Template.WrittenAs ts v) :
      WrittenAs (.templates ts) v
  | rows {tss : List (List Template)} {v : Value}
      (h : Lists (Lists Template.WrittenAs) tss v) : WrittenAs (.rows tss) v
  | flag (b : Bool) : WrittenAs (.flag b) (.bool b)
  | vars {b : Bindings} {identity : Identity} {l : List (String × String)}
      (h : l.Perm b.entries) :
      WrittenAs (.vars b) (.table { identity } [] (l.map variableField))

/-- The value that the content of a field is written as. -/
def toValue : Content → Value
  | .absent => .nil
  | .text s => .ofString s
  | .texts ss => .ofList (ss.map .ofString)
  | .template t => t.toValue
  | .templates ts => .ofList (ts.map Template.toValue)
  | .rows tss => .ofList (tss.map fun ts => .ofList (ts.map Template.toValue))
  | .flag b => .bool b
  | .vars b => .table {} [] (b.entries.map variableField)

/-- The fragments in the content of a field. -/
def fragments : Content → List Fragment
  | .template t => t.fragments
  | .templates ts => ts.flatMap Template.fragments
  | .rows tss => tss.flatten.flatMap Template.fragments
  | _ => []

end Content

/-- A record has a content under each of some names. -/
structure Record (fields : List (String × Content)) (v : Value) : Prop where
  table : ∃ identity entries, v = .table { identity } [] entries
  written : ∀ f ∈ fields, f.2.WrittenAs (v.get f.1)

/-- The table of a record. -/
def recordTable (fields : List (String × Content)) : Value :=
  .ofPresent (fields.map fun f => (f.1, f.2.toValue))

/-! ## Fields of rules and targets -/

/-- What the table of a rule holds. -/
def RuleTemplate.fields (r : RuleTemplate) : List (String × Content) :=
  [("name", .text r.name), ("commands", .rows r.commands),
   ("description", .option .template r.description), ("generator", .flag r.generator),
   ("restat", .flag r.restat)]

/-- What the table of a target holds. -/
def Target.fields : Target → List (String × Content)
  | .cpp t =>
    [("type", .text "cpp"), ("input", .template t.input), ("output", .option .template t.output),
     ("implicits", .templates t.implicits), ("defines", .templates t.defines)]
  | .cpps t =>
    [("type", .text "cpps"), ("inputs", .templates t.inputs),
     ("input_dir", .option .template t.inputDir), ("output_dir", .option .template t.outputDir),
     ("implicits", .templates t.implicits), ("defines", .templates t.defines)]
  | .copy t =>
    [("type", .text "copy"), ("inputs", .templates t.inputs),
     ("input_dir", .option .template t.inputDir), ("output_dir", .option .template t.outputDir)]
  | .magick t =>
    [("type", .text "magick"), ("input", .template t.input), ("output", .template t.output),
     ("args", .templates t.args)]
  | .rsvgConvert t =>
    [("type", .text "rsvg-convert"), ("input", .template t.input),
     ("output", .template t.output), ("args", .templates t.args)]
  | .minify t =>
    [("type", .text "minify"), ("inputs", .templates t.inputs),
     ("input_dir", .option .template t.inputDir), ("output_dir", .option .template t.outputDir)]
  | .zip t =>
    [("type", .text "zip"), ("inputs", .templates t.inputs),
     ("input_dir", .option .template t.inputDir), ("output", .template t.output)]
  | .regen t =>
    [("type", .text "regen"), ("inputs", .option .templates t.inputs),
     ("outputs", .option .templates t.outputs), ("implicits", .option .templates t.implicits)]
  | .rsync t =>
    [("type", .text "rsync"), ("name", .text t.name), ("inputs", .texts t.inputs),
     ("src_dir", .template t.srcDir), ("config", .template t.config),
     ("dst_dir", .template t.dstDir)]
  | .core e =>
    [("type", .text "core"), ("rule", .text e.rule), ("inputs", .texts e.inputs),
     ("outputs", .texts e.outputs), ("implicits", .texts e.implicits),
     ("order_only", .texts e.orderOnly), ("regen_implicits", .texts e.regenImplicits),
     ("vars", .vars e.vars), ("all", .flag e.all)]

namespace Description

/-- The fragments of all templates of a description. -/
def fragments (d : Description) : List Fragment :=
  (d.rules.flatMap RuleTemplate.fields ++ d.targets.flatMap Target.fields).flatMap
    (·.2.fragments)

/-- A table is a writing of a description. -/
structure WrittenAs (d : Description) (v : Value) : Prop where
  table : ∃ identity entries, v = .table { identity } [] entries
  rules : Lists (fun r => Record r.fields) d.rules (v.get "rules")
  targets : Lists (fun t => Record t.fields) d.targets (v.get "targets")

/-- The table that a description is written as. -/
def toValue (d : Description) : Value :=
  .ofFields [
    ("rules", .ofList (d.rules.map fun r => recordTable r.fields)),
    ("targets", .ofList (d.targets.map fun t => recordTable t.fields))]

end Description

/-! ## What is written is a writing -/

theorem Fragment.writtenAs_toValue (f : Fragment) : f.WrittenAs f.toValue := by
  cases f with
  | literal text => exact .literal text
  | keyword k =>
      obtain ⟨identity, hget⟩ := Value.exists_get_keywordTable k.name
      rw [toValue, hget]
      exact .keyword k identity
  | unknown name =>
      obtain ⟨identity, hget⟩ := Value.exists_get_keywordTable name
      rw [toValue, hget]
      exact .unknown name identity

theorem Template.writtenAs_toValue (t : Template) : t.WrittenAs t.toValue := by
  cases t with
  | literal text => exact .literal text
  | composed fs => exact .composed (.ofList fun f _ => f.writtenAs_toValue)

theorem Content.writtenAs_toValue (c : Content) : c.WrittenAs c.toValue := by
  cases c with
  | absent => exact .absent
  | text s => exact .text s
  | texts ss => exact .texts (.ofList fun _ _ => rfl)
  | template t => exact .template t.writtenAs_toValue
  | templates ts => exact .templates (.ofList fun t _ => t.writtenAs_toValue)
  | rows tss => exact .rows (.ofList fun _ _ => .ofList fun t _ => t.writtenAs_toValue)
  | flag b => exact .flag b
  | vars b => exact .vars (.refl _)

/-- A field is looked up under its name if no other field has this name. -/
theorem Script.Value.get_ofPresent {fields : List (String × Value)}
    (hnodup : (fields.map (·.1)).Nodup) {f : String × Value} (hf : f ∈ fields) :
    (ofPresent fields).get f.1 = f.2 := by
  rw [ofPresent, ofFields, get, lookup_text, findField_named]
  dsimp only
  split
  · next hnone =>
      have habsent := List.find?_eq_none.1 hnone f
      cases hv : f.2 <;> simp_all [isNil]
  · next g hsome =>
      have hname : g.1 = f.1 := by simpa using List.find?_some hsome
      have hg : g ∈ fields := (List.mem_filter.1 (List.mem_of_find?_eq_some hsome)).1
      rw [List.inj_on_of_nodup_map hnodup hg hf hname]

theorem record_recordTable {fields : List (String × Content)}
    (hnodup : (fields.map (·.1)).Nodup) : Record fields (recordTable fields) where
  table := ⟨_, _, rfl⟩
  written := by
    intro f hf
    have hget : (recordTable fields).get f.1 = f.2.toValue :=
      Value.get_ofPresent (f := (f.1, f.2.toValue)) (by simpa [Function.comp_def] using hnodup)
        (List.mem_map.2 ⟨f, hf, rfl⟩)
    rw [hget]
    exact f.2.writtenAs_toValue

theorem RuleTemplate.nodup_fields (r : RuleTemplate) : (r.fields.map (·.1)).Nodup := by
  simp [fields]

theorem Target.nodup_fields (t : Target) : (t.fields.map (·.1)).Nodup := by
  cases t <;> simp [fields]

theorem Description.writtenAs_toValue (d : Description) : d.WrittenAs d.toValue where
  table := ⟨_, _, rfl⟩
  rules := .ofList fun r _ => record_recordTable r.nodup_fields
  targets := .ofList fun t _ => record_recordTable t.nodup_fields

/-! ## Variables -/

namespace Bindings

theorem insertEntry_perm {name value : String} {l : List (String × String)}
    (h : ∀ e ∈ l, name ≠ e.1) : (insertEntry name value l).Perm ((name, value) :: l) := by
  induction l with
  | nil => exact .refl _
  | cons e l ih =>
      rw [insertEntry]
      split
      · exact .refl _
      · rw [if_neg (h e List.mem_cons_self)]
        exact ((ih fun e he => h e (List.mem_cons_of_mem _ he)).cons e).trans (.swap ..)

theorem foldl_insert_perm {l : List (String × String)} (hnodup : (l.map (·.1)).Nodup)
    {b : Bindings} (happart : ∀ e ∈ l, ∀ e' ∈ b.entries, e.1 ≠ e'.1) :
    (l.foldl (fun b p => b.insert p.1 p.2) b).entries.Perm (l ++ b.entries) := by
  induction l generalizing b with
  | nil => exact .refl _
  | cons e l ih =>
      rw [List.map_cons, List.nodup_cons] at hnodup
      have hinsert : (b.insert e.1 e.2).entries.Perm (e :: b.entries) :=
        insertEntry_perm (happart e List.mem_cons_self)
      refine (ih hnodup.2 fun a ha e' he' => ?_).trans ?_
      · rcases List.mem_cons.1 (hinsert.mem_iff.1 he') with rfl | he'
        · exact fun hname => hnodup.1 (hname ▸ List.mem_map.2 ⟨a, ha, rfl⟩)
        · exact happart a (List.mem_cons_of_mem _ ha) e' he'
      · exact (hinsert.append_left l).trans List.perm_middle

/-- Bindings are made of their entries, in whatever order these come. -/
theorem ofList_of_perm {b : Bindings} {l : List (String × String)} (h : l.Perm b.entries) :
    ofList l = b := by
  have hnodup : (b.entries.map (·.1)).Nodup :=
    List.pairwise_map.2 (b.sorted.imp fun hlt => String.ne_of_lt hlt)
  have hperm : (ofList l).entries.Perm (l ++ []) :=
    foldl_insert_perm ((h.map (·.1)).nodup_iff.2 hnodup) fun _ _ _ he' =>
      absurd he' List.not_mem_nil
  rw [List.append_nil] at hperm
  refine ext (List.Perm.eq_of_pairwise ?_ (ofList l).sorted b.sorted (hperm.trans h))
  intro _ _ _ _ hlt hgt
  exact absurd hgt (String.lt_asymm hlt)

end Bindings

/-! ## Reading -/

/-- A field is written, and the fragments in its content read back. -/
structure Content.Reads (c : Content) (v : Value) : Prop where
  written : c.WrittenAs v
  regular : ∀ f ∈ c.fragments, f.Regular

namespace Description

variable {place field : String} {v : Value}

/-! ### Lists -/

theorem eachOf_of_forall₂ {form : α → Value → Prop} {read : Value → Except Error α}
    {as : List α} {items : List Value} (h : List.Forall₂ form as items)
    (hread : ∀ a ∈ as, ∀ v, form a v → read v = .ok a) : eachOf read items = .ok as := by
  induction h with
  | nil => rfl
  | cons hv _ ih =>
      rw [eachOf, hread _ List.mem_cons_self _ hv,
        ih fun a ha => hread a (List.mem_cons_of_mem _ ha)]
      rfl

theorem eachTable_of_forall₂ {form : α → Value → Prop} {read : String → Value → Except Error α}
    {as : List α} {items : List Value} (h : List.Forall₂ form as items)
    (htable : ∀ a v, form a v → asTable v = .ok v)
    (hread : ∀ a ∈ as, ∀ place v, form a v → read place v = .ok a) (number : Nat) :
    eachTable read field number items = .ok as := by
  induction h generalizing number with
  | nil => rfl
  | cons hv _ ih =>
      rw [eachTable, htable _ _ hv]
      change (read _ _ >>= _) = _
      rw [hread _ List.mem_cons_self _ _ hv]
      change (eachTable read field _ _ >>= _) = _
      rw [ih fun a ha => hread a (List.mem_cons_of_mem _ ha)]
      rfl

/-! ### Templates -/

/-- A written fragment is read back. -/
theorem fragmentsOf_of_writtenAs {f : Fragment} (h : f.WrittenAs v) (hreg : f.Regular) :
    fragmentsOf place v = .ok [f] := by
  cases h with
  | literal text => exact fragmentsOf_ofString place text
  | keyword k identity =>
      rw [fragmentsOf_markerAs, Fragment.ofName, Keyword.ofName?_name]
  | unknown name identity =>
      rw [fragmentsOf_markerAs, Fragment.ofName, show Keyword.ofName? name = none from hreg]

theorem fragmentsOfAll_of_forall₂ {fs : List Fragment} {items : List Value}
    (h : List.Forall₂ Fragment.WrittenAs fs items) (hreg : ∀ f ∈ fs, f.Regular) :
    fragmentsOfAll place items = .ok fs := by
  induction h with
  | nil => rw [fragmentsOfAll]; rfl
  | cons hv _ ih =>
      rw [fragmentsOfAll, fragmentsOf_of_writtenAs hv (hreg _ List.mem_cons_self),
        ih fun f hf => hreg f (List.mem_cons_of_mem _ hf)]
      rfl

/-- A written template is read back. -/
theorem template_of_writtenAs {t : Template} (h : t.WrittenAs v)
    (hreg : ∀ f ∈ t.fragments, f.Regular) : template place v = .ok t := by
  cases h with
  | literal text => exact template_ofString place text
  | composed h =>
      cases h with
      | table h =>
          rw [template, fragmentsOf]
          change ((fragmentsOfAll place _).map _) = _
          rw [fragmentsOfAll_of_forall₂ h hreg]
          rfl

theorem templates_of_lists {ts : List Template} (h : Lists Template.WrittenAs ts v)
    (hreg : ∀ f ∈ ts.flatMap Template.fragments, f.Regular) : templates place v = .ok ts := by
  cases h with
  | table h =>
      exact eachOf_of_forall₂ h fun t ht v hv =>
        template_of_writtenAs hv fun f hf => hreg f (List.mem_flatMap.2 ⟨t, ht, hf⟩)

/-! ### Contents -/

/-- A reading gives back what a kind of content holds, and such a content is never absent. -/
def ReadsBack (content : α → Content) (read : String → Value → Except Error α) : Prop :=
  ∀ a v, (content a).Reads v → v.isNil = false ∧ ∀ place, read place v = .ok a

theorem readsBack_template : ReadsBack .template template := by
  rintro t v ⟨hwritten, hreg⟩
  cases hwritten with
  | template h =>
      refine ⟨?_, fun place => template_of_writtenAs h hreg⟩
      cases h with
      | literal text => rfl
      | composed h => cases h; rfl

theorem readsBack_templates : ReadsBack .templates templates := by
  rintro ts v ⟨hwritten, hreg⟩
  cases hwritten with
  | templates h =>
      refine ⟨?_, fun place => templates_of_lists h hreg⟩
      cases h
      rfl

section Fields

variable {content : α → Content} {read : String → Value → Except Error α} {t : Value}

theorem required_of_reads (hread : ReadsBack content read) {a : α}
    (h : (content a).Reads (t.get field)) : required read t field place = .ok a := by
  obtain ⟨hnil, hget⟩ := hread a _ h
  rw [required, hnil]
  exact hget _

theorem optional_of_reads (hread : ReadsBack content read) {o : Option α}
    (h : (Content.option content o).Reads (t.get field)) :
    optional read t field place = .ok o := by
  cases o with
  | none =>
      have hnil : t.get field = .nil := by
        generalize t.get field = v at h
        cases h.written
        rfl
      rw [optional, hnil]
      rfl
  | some a =>
      obtain ⟨hnil, hget⟩ := hread a _ h
      rw [optional, hnil, hget]
      rfl

theorem templatesOrNone_of_reads {ts : List Template}
    (h : (Content.templates ts).Reads (t.get field)) :
    templatesOrNone t field place = .ok ts := by
  rw [templatesOrNone, optional_of_reads (o := some ts) readsBack_templates h]
  rfl

theorem plainTexts_of_reads {ss : List String} (h : (Content.texts ss).Reads (t.get field)) :
    plainTexts t field place = .ok ss := by
  rw [plainTexts]
  generalize t.get field = v at h
  obtain ⟨hwritten, -⟩ := h
  cases hwritten with
  | texts h =>
      cases h with
      | table h =>
          refine eachOf_of_forall₂ h fun s _ v hv => ?_
          rw [hv]
          exact Value.characters_toUTF8 s

theorem name_of_reads {s : String} (h : (Content.text s).Reads (t.get field)) :
    name t field place = .ok s := by
  rw [name]
  generalize t.get field = v at h
  cases h.written
  change ((Value.ofString s).asText.map some >>= _) = _
  rw [Value.asText_ofString]
  rfl

theorem commands_of_reads {tss : List (List Template)} (h : (Content.rows tss).Reads v) :
    commands place v = .ok tss := by
  obtain ⟨hwritten, hreg⟩ := h
  cases hwritten with
  | rows h =>
      cases h with
      | table h =>
          refine eachOf_of_forall₂ h fun ts hts v hv => templates_of_lists hv fun f hf => ?_
          obtain ⟨t, ht, hf⟩ := List.mem_flatMap.1 hf
          exact hreg f (List.mem_flatMap.2 ⟨t, List.mem_flatten.2 ⟨ts, hts, ht⟩, hf⟩)

theorem bindings_variableFields (l : List (String × String)) :
    bindings (l.map Content.variableField) = .ok l := by
  induction l with
  | nil => rfl
  | cons b l ih =>
      have hb : binding (.text b.1.toUTF8) (.ofString b.2) = .ok b := by
        rw [binding, Value.characters_toUTF8, Value.asText_ofString]
        rfl
      rw [List.map_cons, Content.variableField, bindings, hb, ih]
      rfl

theorem vars_of_reads {b : Bindings} (h : (Content.vars b).Reads v) : vars v = .ok b := by
  obtain ⟨hwritten, -⟩ := h
  cases hwritten with
  | vars h =>
      change ((bindings (_ ++ _)).map _) = _
      rw [Value.indexed, List.nil_append, bindings_variableFields]
      exact congrArg Except.ok (Bindings.ofList_of_perm h)

theorem asFlag_of_reads {b : Bool} (h : (Content.flag b).Reads v) (default : Bool) :
    v.asFlag default = b := by
  cases h.written
  rfl

end Fields

/-! ### Records -/

/-- The fields of a record are read as what they hold. -/
def ReadsRecord (fields : List (String × Content)) (v : Value) : Prop :=
  ∀ f ∈ fields, f.2.Reads (v.get f.1)

theorem rule_of_reads {r : RuleTemplate} (h : ReadsRecord r.fields v) : rule place v = .ok r := by
  simp only [ReadsRecord, RuleTemplate.fields, List.forall_mem_cons] at h
  obtain ⟨hname, hcommands, hdescription, hgenerator, hrestat, -⟩ := h
  simp only [rule, name_of_reads hname, commands_of_reads hcommands,
    optional_of_reads readsBack_template hdescription, asFlag_of_reads hgenerator,
    asFlag_of_reads hrestat]
  rfl

theorem cpp_of_reads {t : Preprocessing} (h : ReadsRecord (Target.cpp t).fields v) :
    cpp place v = .ok t := by
  simp only [ReadsRecord, Target.fields, List.forall_mem_cons] at h
  obtain ⟨-, hinput, houtput, himplicits, hdefines, -⟩ := h
  simp only [cpp, required_of_reads readsBack_template hinput,
    optional_of_reads readsBack_template houtput, templatesOrNone_of_reads himplicits,
    templatesOrNone_of_reads hdefines]
  rfl

theorem cpps_of_reads {t : PreprocessingBatch} (h : ReadsRecord (Target.cpps t).fields v) :
    cpps place v = .ok t := by
  simp only [ReadsRecord, Target.fields, List.forall_mem_cons] at h
  obtain ⟨-, hinputs, hinputDir, houtputDir, himplicits, hdefines, -⟩ := h
  simp only [cpps, required_of_reads readsBack_templates hinputs,
    optional_of_reads readsBack_template hinputDir,
    optional_of_reads readsBack_template houtputDir, templatesOrNone_of_reads himplicits,
    templatesOrNone_of_reads hdefines]
  rfl

/-- What a table of a target of files holds besides its type. -/
theorem files_of_reads {t : FileBatch} (h : ReadsRecord (Target.copy t).fields.tail v) :
    files place v = .ok t := by
  simp only [ReadsRecord, Target.fields, List.tail_cons, List.forall_mem_cons] at h
  obtain ⟨hinputs, hinputDir, houtputDir, -⟩ := h
  simp only [files, required_of_reads readsBack_templates hinputs,
    optional_of_reads readsBack_template hinputDir,
    optional_of_reads readsBack_template houtputDir]
  rfl

theorem convert_of_reads {t : Conversion} (h : ReadsRecord (Target.magick t).fields.tail v) :
    convert place v = .ok t := by
  simp only [ReadsRecord, Target.fields, List.tail_cons, List.forall_mem_cons] at h
  obtain ⟨hinput, houtput, hargs, -⟩ := h
  simp only [convert, required_of_reads readsBack_template hinput,
    required_of_reads readsBack_template houtput, templatesOrNone_of_reads hargs]
  rfl

theorem zip_of_reads {t : Archive} (h : ReadsRecord (Target.zip t).fields v) :
    zip place v = .ok t := by
  simp only [ReadsRecord, Target.fields, List.forall_mem_cons] at h
  obtain ⟨-, hinputs, hinputDir, houtput, -⟩ := h
  simp only [zip, required_of_reads readsBack_templates hinputs,
    optional_of_reads readsBack_template hinputDir, required_of_reads readsBack_template houtput]
  rfl

theorem regen_of_reads {t : Regeneration} (h : ReadsRecord (Target.regen t).fields v) :
    regen place v = .ok t := by
  simp only [ReadsRecord, Target.fields, List.forall_mem_cons] at h
  obtain ⟨-, hinputs, houtputs, himplicits, -⟩ := h
  simp only [regen, optional_of_reads readsBack_templates hinputs,
    optional_of_reads readsBack_templates houtputs,
    optional_of_reads readsBack_templates himplicits]
  rfl

theorem rsync_of_reads {t : Deployment} (h : ReadsRecord (Target.rsync t).fields v) :
    rsync place v = .ok t := by
  simp only [ReadsRecord, Target.fields, List.forall_mem_cons] at h
  obtain ⟨-, hname, hinputs, hsrcDir, hconfig, hdstDir, -⟩ := h
  simp only [rsync, name_of_reads hname, plainTexts_of_reads hinputs,
    required_of_reads readsBack_template hsrcDir,
    optional_of_reads (o := some t.config) readsBack_template hconfig,
    required_of_reads readsBack_template hdstDir]
  rfl

theorem edge_of_reads {e : Edge} (h : ReadsRecord (Target.core e).fields v) :
    edge place v = .ok e := by
  simp only [ReadsRecord, Target.fields, List.forall_mem_cons] at h
  obtain ⟨-, hrule, hinputs, houtputs, himplicits, horderOnly, hregen, hvars, hall, -⟩ := h
  simp only [edge, name_of_reads hrule, plainTexts_of_reads hinputs,
    plainTexts_of_reads houtputs, plainTexts_of_reads himplicits, plainTexts_of_reads horderOnly,
    plainTexts_of_reads hregen, vars_of_reads hvars, asFlag_of_reads hall]
  rfl

/-- The table of a target of any kind is read as the target. -/
theorem target_of_reads {t : Target} (h : ReadsRecord t.fields v) : target place v = .ok t := by
  have hkind : (Content.text t.kind.name).Reads (v.get "type") := by
    cases t <;> exact h ("type", .text _) List.mem_cons_self
  have htail : ReadsRecord t.fields.tail v := fun f hf => h f (List.mem_of_mem_tail hf)
  rw [target, name_of_reads hkind]
  simp only [bind, Except.bind, Target.Kind.ofName?_name]
  cases t with
  | cpp t => exact congrArg (Except.map Target.cpp) (cpp_of_reads h)
  | cpps t => exact congrArg (Except.map Target.cpps) (cpps_of_reads h)
  | copy t => exact congrArg (Except.map Target.copy) (files_of_reads htail)
  | magick t => exact congrArg (Except.map Target.magick) (convert_of_reads htail)
  | rsvgConvert t => exact congrArg (Except.map Target.rsvgConvert) (convert_of_reads htail)
  | minify t => exact congrArg (Except.map Target.minify) (files_of_reads htail)
  | zip t => exact congrArg (Except.map Target.zip) (zip_of_reads h)
  | regen t => exact congrArg (Except.map Target.regen) (regen_of_reads h)
  | rsync t => exact congrArg (Except.map Target.rsync) (rsync_of_reads h)
  | core e => exact congrArg (Except.map Target.core) (edge_of_reads h)

/-! ## Descriptions -/

theorem asTable_of_record {fields : List (String × Content)} (h : Record fields v) :
    asTable v = .ok v := by
  obtain ⟨identity, entries, rfl⟩ := h.table
  rfl

theorem rulesOf_of_lists {rs : List RuleTemplate} (h : Lists (fun r => Record r.fields) rs v)
    (hread : ∀ r ∈ rs, ∀ place v, Record r.fields v → rule place v = .ok r) :
    rulesOf v = .ok rs := by
  cases h with
  | table h => exact eachTable_of_forall₂ h (fun _ _ => asTable_of_record) hread 1

theorem targetsOf_of_lists {ts : List Target} (h : Lists (fun t => Record t.fields) ts v)
    (hread : ∀ t ∈ ts, ∀ place v, Record t.fields v → target place v = .ok t) :
    targetsOf v = .ok ts := by
  cases h with
  | table h => exact eachTable_of_forall₂ h (fun _ _ => asTable_of_record) hread 1

/-- A description whose unknown names are those of no keyword is read back from every table that
is a writing of it, the written one among them. -/
theorem ofValue_of_writtenAs {d : Description} (h : ∀ f ∈ d.fragments, f.Regular) :
    d.WrittenAs d.toValue ∧ ∀ v, d.WrittenAs v → ofValue v = .ok d := by
  refine ⟨d.writtenAs_toValue, fun v hv => ?_⟩
  have hrules : rulesOf (v.get "rules") = .ok d.rules := by
    refine rulesOf_of_lists hv.rules fun r hr place v hv => rule_of_reads fun f hf => ?_
    refine ⟨hv.written f hf, fun fragment hfragment => h _ (List.mem_flatMap.2 ⟨f, ?_, hfragment⟩)⟩
    exact List.mem_append_left _ (List.mem_flatMap.2 ⟨r, hr, hf⟩)
  have htargets : targetsOf (v.get "targets") = .ok d.targets := by
    refine targetsOf_of_lists hv.targets fun t ht place v hv => target_of_reads fun f hf => ?_
    refine ⟨hv.written f hf, fun fragment hfragment => h _ (List.mem_flatMap.2 ⟨f, ?_, hfragment⟩)⟩
    exact List.mem_append_right _ (List.mem_flatMap.2 ⟨t, ht, hf⟩)
  obtain ⟨identity, entries, rfl⟩ := hv.table
  simp only [ofValue, hrules, htargets]
  rfl

/-- A rule with an unknown name, and a target of each kind. -/
def ofEachKind : Description where
  rules := [{
    name := "page"
    commands := [[.composed [.keyword .bashCommand], .composed [.unknown "FLAGS", .literal "-c"]]]
    description := some (.literal "PAGE $out")
    generator := true }]
  targets := [
    .cpp { input := .below .inputDir "a.in", defines := [.literal "X=1"] },
    .cpps { inputs := [.literal "b.in"], outputDir := some (.ofKeyword .outputDir) },
    .copy { inputs := [.literal "c", .composed []], inputDir := some (.literal "src") },
    .magick { input := .literal "d.png", output := .literal "d.ico", args := [.literal "-strip"] },
    .rsvgConvert { input := .literal "e.svg", output := .literal "e.png" },
    .minify { inputs := [] },
    .zip { inputs := [.literal "f"], output := .below .outputDir "f.zip" },
    .regen { inputs := some [], implicits := some [.literal "g"] },
    .rsync {
      name := "deploy", inputs := ["index.html"], srcDir := .ofKeyword .outputDir
      config := .literal "config", dstDir := .literal "host:/srv" },
    .core {
      inputs := ["h"], outputs := ["i"], rule := "page", vars := Bindings.empty.insert "k" "v"
      all := false }]

theorem ofValue_toValue_ofEachKind :
    (∀ f ∈ ofEachKind.fragments, f.Regular) ∧ ofValue ofEachKind.toValue = .ok ofEachKind := by
  have hregular : ∀ f ∈ ofEachKind.fragments, f.Regular := by decide
  obtain ⟨hwritten, hread⟩ := ofValue_of_writtenAs hregular
  exact ⟨hregular, hread _ hwritten⟩

end Description

end BuildGraph
