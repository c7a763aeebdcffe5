import BuildGraph.Graph.Document
import BuildGraph.Ninja.BuildFile
import BuildGraph.Proofs.WrittenDescriptions

/-!
# Documents of graphs

The fields of a record are a table: of each field the name, whether its value is the usual one, and
the document of the value (`Rule.fields`, `Edge.fields`).  A field with its usual value may be left
out.  The documents that are written leave all of these out and have the other fields in order.  One
may also write them out, put the members in any order, and put members of other names among them
(`Rule.WrittenAs`, `Edge.WrittenAs`, `Graph.WrittenAs`).

Whatever is left out or written out, a record is read from the table of its fields
(`Json.fields?_of_perm`), and an optional field is read back if what stands for it when it is absent
is its usual value (`Json.Field.optional_shown`).  So each document of a graph gives the graph back,
the written one among them (`Graph.document_lossless`).
-/

namespace BuildGraph

/-! ## Tables of fields -/

namespace Json

/-- A field of a record. -/
structure Field where
  name : String
  /-- Whether the field has its usual value, so that it may be left out. -/
  usual : Bool
  /-- The document of the value. -/
  doc : Json

/-- What a record shows of a field, if it writes out the usual values of some names. -/
def Field.shown (explicit : String → Bool) (f : Field) : Option Json :=
  if f.usual && !explicit f.name then none else some f.doc

/-- The members of a record, in the order of its fields. -/
def members (explicit : String → Bool) (fields : List Field) : List (String × Json) :=
  fields.filterMap fun f => (f.shown explicit).map (f.name, ·)

/-- The names of a table. -/
def Field.names (fields : List Field) : List String := fields.map (·.name)

variable {explicit : String → Bool} {fields : List Field} {f : Field}

theorem mem_names_of_mem_members {m : String × Json} (h : m ∈ members explicit fields) :
    m.1 ∈ Field.names fields := by
  obtain ⟨f, hf, hshown⟩ := List.mem_filterMap.1 h
  obtain ⟨doc, -, rfl⟩ := Option.map_eq_some_iff.1 hshown
  exact List.mem_map_of_mem hf

theorem members_cons (f : Field) (fields : List Field) :
    members explicit (f :: fields)
      = ((f.shown explicit).map (f.name, ·)).toList ++ members explicit fields := by
  rw [members, List.filterMap_cons, members]
  cases f.shown explicit <;> rfl

/-- The members of one name are those that the field of this name shows. -/
theorem filter_members (hnodup : (Field.names fields).Nodup) (hf : f ∈ fields) :
    (members explicit fields).filter (·.1 == f.name)
      = ((f.shown explicit).map (f.name, ·)).toList := by
  induction fields with
  | nil => cases hf
  | cons g fields ih =>
      rw [Field.names, List.map_cons, List.nodup_cons] at hnodup
      rw [members_cons, List.filter_append]
      rcases List.mem_cons.1 hf with rfl | hf
      · have hrest : (members explicit fields).filter (·.1 == f.name) = [] := by
          refine List.filter_eq_nil_iff.2 fun m hm hname => hnodup.1 ?_
          rw [← eq_of_beq hname]
          exact mem_names_of_mem_members hm
        rw [hrest, List.append_nil]
        cases f.shown explicit <;> simp
      · have hne : g.name ≠ f.name := fun hname =>
          hnodup.1 (hname ▸ List.mem_map_of_mem hf)
        rw [ih hnodup.2 hf]
        cases g.shown explicit <;> simp [hne]

/-- A field is found among members in any order, if members of other names are passed over. -/
theorem member?_of_perm (hnodup : (Field.names fields).Nodup) {ms : List (String × Json)}
    (h : (ms.filter (·.1 ∈ Field.names fields)).Perm (members explicit fields))
    (hf : f ∈ fields) : member? ms f.name = some (f.shown explicit) := by
  have hnamed : ms.filter (·.1 == f.name)
      = (ms.filter (·.1 ∈ Field.names fields)).filter (·.1 == f.name) := by
    rw [List.filter_filter]
    refine List.filter_congr fun m _ => ?_
    have hmem : f.name ∈ Field.names fields := List.mem_map_of_mem hf
    by_cases hname : m.1 = f.name <;> simp [hname, hmem]
  have hperm := h.filter (·.1 == f.name)
  rw [← hnamed, filter_members hnodup hf] at hperm
  rw [member?]
  cases hshown : f.shown explicit with
  | none =>
      rw [hshown] at hperm
      rw [List.Perm.eq_nil hperm]
  | some doc =>
      rw [hshown] at hperm
      rw [List.perm_singleton.1 hperm]

theorem mapM_eq_some_of_forall {α β : Type} {read : α → Option β} {value : α → β} {l : List α}
    (h : ∀ a ∈ l, read a = some (value a)) : l.mapM read = some (l.map value) := by
  induction l with
  | nil => rfl
  | cons a l ih =>
      obtain ⟨ha, hl⟩ := List.forall_mem_cons.1 h
      rw [List.mapM_cons, ha, ih hl]
      rfl

/-- A document has what a record shows of its fields, in any order and among members of other
names. -/
inductive Shows (fields : List Field) : Json → Prop
  | object {explicit : String → Bool} {ms : List (String × Json)}
      (h : (ms.filter (·.1 ∈ Field.names fields)).Perm (members explicit fields)) :
      Shows fields (.object ms)

theorem shows_members (explicit : String → Bool) (fields : List Field) :
    Shows fields (.object (members explicit fields)) := by
  have hnames : (members explicit fields).filter (·.1 ∈ Field.names fields)
      = members explicit fields := by
    rw [List.filter_eq_self]
    intro m hm
    exact decide_eq_true (mem_names_of_mem_members hm)
  exact .object (.of_eq hnames)

/-- The fields of a record are read from a document that shows them. -/
theorem Shows.fields? {doc : Json} (h : Shows fields doc)
    (hnodup : (Field.names fields).Nodup) :
    ∃ explicit, doc.fields? (Field.names fields) = some (fields.map (·.shown explicit)) := by
  cases h with
  | @object explicit ms h =>
      refine ⟨explicit, ?_⟩
      rw [Json.fields?, Field.names, List.mapM_map]
      exact mapM_eq_some_of_forall fun f hf => member?_of_perm hnodup h hf

/-! ## Values of fields -/

section Values

variable {α : Type} {read : Json → Option α} {name : String} {doc : Json} {value : α}

/-- A field without a usual value is read. -/
theorem required_shown (hread : read doc = some value) :
    required read (Field.shown explicit ⟨name, false, doc⟩) = some value :=
  hread

/-- A field is read if the usual value is what stands for it when it is absent. -/
theorem optional_shown {default : α} {usual : Bool} (hread : read doc = some value)
    (husual : usual = true → value = default) :
    optional default read (Field.shown explicit ⟨name, usual, doc⟩) = some value := by
  rw [Field.shown]
  split
  · next hleft =>
      rw [husual (Bool.and_eq_true_iff.1 hleft).1]
      rfl
  · exact hread

/-- What a record that writes out no usual value shows of a field. -/
theorem toList_shown (usual : Bool) :
    ((Field.shown (fun _ => false) ⟨name, usual, doc⟩).map (name, ·)).toList
      = memberIf (!usual) name doc := by
  cases usual <;> rfl

theorem listOf?_array {form : α → Json → Prop} {values : List α} {items : List Json}
    (h : List.Forall₂ form values items) (hread : ∀ a doc, form a doc → read doc = some a) :
    listOf? read (.array items) = some values := by
  rw [listOf?]
  induction h with
  | nil => rfl
  | cons ha _ ih =>
      rw [List.mapM_cons, hread _ _ ha, ih]
      rfl

theorem listOf?_map {write : α → Json} (hread : ∀ a, read (write a) = some a)
    (values : List α) : listOf? read (.array (values.map write)) = some values := by
  have hwritten : List.Forall₂ (fun a doc => doc = write a) values (values.map write) :=
    List.forall₂_map_right_iff.2 (List.forall₂_same.2 fun _ _ => rfl)
  refine listOf?_array hwritten ?_
  rintro a doc rfl
  exact hread a

theorem texts?_ofTexts (texts : List String) : texts? (.ofTexts texts) = some texts := by
  have hread : ∀ s, text? (.string s) = some s := fun _ => rfl
  exact listOf?_map hread texts

end Values

end Json

theorem Bindings.ofDocument?_toDocument (b : Bindings) : ofDocument? b.toDocument = some b := by
  have hentry : ∀ e ∈ b.entries,
      ((Json.text? (.string e.2)).map fun v => (e.1, v)) = some (id e) := fun _ _ => rfl
  have hmembers : b.toDocument.membersOf? Json.text? = some b.entries := by
    rw [toDocument, Json.membersOf?, List.mapM_map]
    exact (Json.mapM_eq_some_of_forall hentry).trans (by rw [List.map_id])
  rw [ofDocument?, hmembers, Option.map_some, ofList_of_perm (.refl _)]

/-! ## Rules -/

namespace Rule

/-- The table of a rule's fields. -/
def fields (r : Rule) : List Json.Field :=
  [⟨"name", false, .string r.name⟩,
   ⟨"commands", false, .array (r.commands.map .ofTexts)⟩,
   ⟨"description", r.description.isNone, (r.description.map .string).getD .null⟩,
   ⟨"generator", !r.generator, .bool r.generator⟩,
   ⟨"restat", !r.restat, .bool r.restat⟩]

/-- A document is a writing of a rule. -/
def WrittenAs (r : Rule) (doc : Json) : Prop := Json.Shows r.fields doc

/-- The written document of a rule leaves out all usual values. -/
theorem toDocument_eq (r : Rule) :
    r.toDocument = .object (Json.members (fun _ => false) r.fields) := by
  rcases r with ⟨name, commands, _ | description, _ | _, _ | _⟩ <;> rfl

theorem writtenAs_toDocument (r : Rule) : r.WrittenAs r.toDocument := by
  rw [toDocument_eq]
  exact Json.shows_members _ _

theorem names_fields (r : Rule) : Json.Field.names r.fields = fieldNames := rfl

/-- A rule is read from each of its writings. -/
theorem ofDocument?_of_writtenAs {r : Rule} {doc : Json} (h : r.WrittenAs doc) :
    ofDocument? doc = some r := by
  have hnodup : (Json.Field.names r.fields).Nodup := by
    rw [names_fields]
    decide
  obtain ⟨explicit, hfields⟩ := Json.Shows.fields? h hnodup
  have hname : Json.text? (.string r.name) = some r.name := rfl
  have hcommands : Json.listOf? Json.texts? (.array (r.commands.map .ofTexts))
      = some r.commands := Json.listOf?_map Json.texts?_ofTexts r.commands
  have hdescription : Json.nullable Json.text? ((r.description.map .string).getD .null)
      = some r.description := by
    cases r.description <;> rfl
  have hflag : ∀ b, Json.bool? (.bool b) = some b := fun _ => rfl
  have hfalse : ∀ b, (!b) = true → b = false := by decide
  rw [names_fields] at hfields
  rw [ofDocument?, hfields]
  simp only [fields, List.map_cons, List.map_nil]
  rw [Json.required_shown hname, Json.required_shown hcommands,
    Json.optional_shown hdescription Option.isNone_iff_eq_none.1,
    Json.optional_shown (hflag r.generator) (hfalse _),
    Json.optional_shown (hflag r.restat) (hfalse _)]
  rfl

end Rule

/-! ## Edges -/

namespace Edge

/-- The table of an edge's fields. -/
def fields (e : Edge) : List Json.Field :=
  [⟨"inputs", false, .ofTexts e.inputs⟩,
   ⟨"outputs", false, .ofTexts e.outputs⟩,
   ⟨"implicits", e.implicits.isEmpty, .ofTexts e.implicits⟩,
   ⟨"order_only", e.orderOnly.isEmpty, .ofTexts e.orderOnly⟩,
   ⟨"regen_implicits", e.regenImplicits.isEmpty, .ofTexts e.regenImplicits⟩,
   ⟨"rule", false, .string e.rule⟩,
   ⟨"vars", e.vars.isEmpty, e.vars.toDocument⟩,
   ⟨"all", e.all, .bool e.all⟩]

/-- A document is a writing of an edge. -/
def WrittenAs (e : Edge) (doc : Json) : Prop := Json.Shows e.fields doc

/-- The written document of an edge leaves out all usual values. -/
theorem toDocument_eq (e : Edge) :
    e.toDocument = .object (Json.members (fun _ => false) e.fields) := by
  have hall : Json.memberIf (!e.all) "all" (.bool false)
      = Json.memberIf (!e.all) "all" (.bool e.all) := by
    cases e.all <;> rfl
  have hnil : Json.members (fun _ => false) [] = [] := rfl
  rw [toDocument, hall, fields]
  simp only [Json.members_cons, Json.toList_shown, hnil, List.append_assoc, List.append_nil]
  rfl

theorem writtenAs_toDocument (e : Edge) : e.WrittenAs e.toDocument := by
  rw [toDocument_eq]
  exact Json.shows_members _ _

theorem names_fields (e : Edge) : Json.Field.names e.fields = fieldNames := rfl

/-- An edge is read from each of its writings. -/
theorem ofDocument?_of_writtenAs {e : Edge} {doc : Json} (h : e.WrittenAs doc) :
    ofDocument? doc = some e := by
  have hnodup : (Json.Field.names e.fields).Nodup := by
    rw [names_fields]
    decide
  obtain ⟨explicit, hfields⟩ := Json.Shows.fields? h hnodup
  have hrule : Json.text? (.string e.rule) = some e.rule := rfl
  have hall : Json.bool? (.bool e.all) = some e.all := rfl
  have hvars : e.vars.isEmpty = true → e.vars = .empty := by
    intro hempty
    exact Bindings.ext (List.isEmpty_iff.1 hempty)
  rw [names_fields] at hfields
  rw [ofDocument?, hfields]
  simp only [fields, List.map_cons, List.map_nil]
  rw [Json.required_shown (Json.texts?_ofTexts e.inputs),
    Json.required_shown (Json.texts?_ofTexts e.outputs),
    Json.optional_shown (Json.texts?_ofTexts e.implicits) List.isEmpty_iff.1,
    Json.optional_shown (Json.texts?_ofTexts e.orderOnly) List.isEmpty_iff.1,
    Json.optional_shown (Json.texts?_ofTexts e.regenImplicits) List.isEmpty_iff.1,
    Json.required_shown hrule, Json.optional_shown e.vars.ofDocument?_toDocument hvars,
    Json.optional_shown hall id]
  rfl

end Edge

/-! ## Graphs -/

namespace Graph

/-- The table of a graph's fields, if its rules and edges are written as some documents. -/
def fields (rules edges : List Json) : List Json.Field :=
  [⟨"rules", false, .array rules⟩, ⟨"targets", false, .array edges⟩]

/-- A document is a writing of a graph: its rules and its edges are written in order, each on its
own. -/
inductive WrittenAs (g : Graph) : Json → Prop
  | shows {rules edges : List Json} {doc : Json}
      (hrules : List.Forall₂ Rule.WrittenAs g.rules rules)
      (hedges : List.Forall₂ Edge.WrittenAs g.edges edges)
      (h : Json.Shows (fields rules edges) doc) : WrittenAs g doc

theorem writtenAs_toDocument (g : Graph) : g.WrittenAs g.toDocument := by
  have hrules : List.Forall₂ Rule.WrittenAs g.rules (g.rules.map Rule.toDocument) :=
    List.forall₂_map_right_iff.2 (List.forall₂_same.2 fun r _ => r.writtenAs_toDocument)
  have hedges : List.Forall₂ Edge.WrittenAs g.edges (g.edges.map Edge.toDocument) :=
    List.forall₂_map_right_iff.2 (List.forall₂_same.2 fun e _ => e.writtenAs_toDocument)
  exact .shows hrules hedges (Json.shows_members (fun _ => false) _)

/-- A graph is read from each of its writings. -/
theorem ofDocument?_of_writtenAs {g : Graph} {doc : Json} (h : g.WrittenAs doc) :
    ofDocument? doc = some g := by
  cases h with
  | @shows rules edges _ hrules hedges h =>
      have hnames : Json.Field.names (fields rules edges) = fieldNames := rfl
      have hnodup : (Json.Field.names (fields rules edges)).Nodup := by
        rw [hnames]
        decide
      obtain ⟨explicit, hfields⟩ := h.fields? hnodup
      rw [hnames] at hfields
      rw [ofDocument?, hfields]
      simp only [fields, List.map_cons, List.map_nil]
      rw [Json.required_shown (Json.listOf?_array hrules fun _ _ => Rule.ofDocument?_of_writtenAs),
        Json.required_shown (Json.listOf?_array hedges fun _ _ => Edge.ofDocument?_of_writtenAs)]
      rfl

theorem ofDocument?_toDocument (g : Graph) : ofDocument? g.toDocument = some g :=
  ofDocument?_of_writtenAs g.writtenAs_toDocument

/-- **Documents of graphs lose nothing.**  The document of a graph gives the graph back, and with
it the text of its build file, although its rules and edges leave out their fields with usual
values.  Each writing of a graph gives the graph back too: one may write out the usual values,
put members in any order, and add members of other names.  What any document describes is
described by the document that is written for it. -/
theorem document_lossless (g : Graph) :
    ofDocument? g.toDocument = some g
      ∧ (ofDocument? g.toDocument).map Ninja.buildFile = some (Ninja.buildFile g)
      ∧ (∀ r ∈ g.rules, r.toDocument = .object (Json.members (fun _ => false) r.fields))
      ∧ (∀ e ∈ g.edges, e.toDocument = .object (Json.members (fun _ => false) e.fields))
      ∧ (∀ doc, g.WrittenAs doc → ofDocument? doc = some g)
      ∧ ∀ doc, (ofDocument? doc).bind (fun g' => ofDocument? g'.toDocument) = ofDocument? doc := by
  refine ⟨g.ofDocument?_toDocument, ?_, fun r _ => r.toDocument_eq, fun e _ => e.toDocument_eq,
    fun _ => ofDocument?_of_writtenAs, fun doc => ?_⟩
  · rw [ofDocument?_toDocument, Option.map_some]
  · cases ofDocument? doc with
    | none => rfl
    | some g' => exact g'.ofDocument?_toDocument

/-- The edges stand before the rules, the edge has a note and writes out an empty list, and the
rule writes out that it has no description. -/
theorem document_lossless_of_note :
    let g : Graph :=
      { rules := [{ name := "copy", commands := [["cp", "$in", "$out"]] }]
        edges := [{ inputs := ["/a"], outputs := ["/b"], rule := "copy", all := false }] }
    let rule : Json := .object [("name", .string "copy"),
      ("commands", .array [.ofTexts ["cp", "$in", "$out"]]), ("description", .null)]
    let edge : Json := .object [("note", .null), ("inputs", .ofTexts ["/a"]),
      ("outputs", .ofTexts ["/b"]), ("implicits", .array []), ("rule", .string "copy"),
      ("all", .bool false)]
    let doc : Json := .object [("targets", .array [edge]), ("rules", .array [rule])]
    g.WrittenAs doc ∧ ofDocument? doc = some g := by
  intro g rule edge doc
  have hrule : Rule.WrittenAs { name := "copy", commands := [["cp", "$in", "$out"]] } rule :=
    @Json.Shows.object _ (· == "description") _ (.of_eq rfl)
  have hedge : Edge.WrittenAs
      { inputs := ["/a"], outputs := ["/b"], rule := "copy", all := false } edge :=
    @Json.Shows.object _ (· == "implicits") _ (.of_eq rfl)
  have hdoc : Json.Shows (fields [rule] [edge]) doc :=
    @Json.Shows.object _ (fun _ => false) _ (.swap ..)
  have h : g.WrittenAs doc := .shows (.cons hrule .nil) (.cons hedge .nil) hdoc
  exact ⟨h, (document_lossless g).2.2.2.2.1 doc h⟩

end Graph

end BuildGraph
