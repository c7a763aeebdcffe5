import BuildGraph.Proofs.Substitution

/-!
# Missing names of targets

The errors that a target records are those of the templates that are composed for its edges, in
that order (`Target.reportsOn_edges`).  These are the templates of its fields and the keywords for
the directories that its kind reads and writes, so where every keyword has a value only the fields
count.

All kinds of targets but one compose each field once, however many edges they have.  A batch of
preprocessed files composes its directories once, but what its members share it composes for every
member again: not at all if there is none.  So a name without a value in a shared field is reported
as often as the batch has inputs, and each mention of a name is reported once just if there is one
input or no shared field mentions it (`Target.reported_once_iff`).
-/

namespace BuildGraph

open Build

/-! ## Templates of targets -/

/-- How often a template mentions a name that is no keyword. -/
def Template.mentions (name : String) (t : Template) : Nat := t.fragments.count (.unknown name)

/-- How often templates mention a name that is no keyword. -/
def Template.mentionsIn (name : String) (ts : List Template) : Nat :=
  (ts.flatMap fragments).count (.unknown name)

/-- What the members of a batch share besides their directories. -/
def PreprocessingBatch.shared (t : PreprocessingBatch) : List Template := t.implicits ++ t.defines

/-- The fields of a batch that its members do not share, and their directories. -/
def PreprocessingBatch.own (t : PreprocessingBatch) : List Template :=
  t.inputs ++ t.inputDir.toList ++ t.outputDir.toList

/-- The templates in the fields of a target. -/
def Target.templates : Target → List Template
  | .cpp t => t.input :: t.output.toList ++ t.implicits ++ t.defines
  | .cpps t => t.own ++ t.shared
  | .copy t => t.outputDir.toList ++ t.inputDir.toList ++ t.inputs
  | .magick t => t.input :: t.output :: t.args
  | .rsvgConvert t => t.input :: t.output :: t.args
  | .minify t => t.outputDir.toList ++ t.inputDir.toList ++ t.inputs
  | .zip t => t.inputDir.toList ++ t.inputs ++ [t.output]
  | .regen t => t.inputs.getD [] ++ t.outputs.getD [] ++ t.implicits.getD []
  | .rsync t => [t.srcDir, t.config, t.dstDir]
  | .core _ => []

/-- The keywords by which the paths of a preprocessed file are found. -/
def Preprocessing.directories : List Template :=
  [.ofKeyword .currentInputDir, .ofKeyword .currentOutputDir, .ofKeyword .inputDir]

/-- The templates that are composed for a preprocessed file, in order. -/
def Preprocessing.composed (t : Preprocessing) : List Template :=
  t.input :: t.output.toList ++ (directories ++ (t.implicits ++ t.defines))

/-- The templates that are composed for a batch: what its members share again for each of them. -/
def PreprocessingBatch.composed (t : PreprocessingBatch) : List Template :=
  t.inputDir.getD (.ofKeyword .currentInputDir)
    :: t.outputDir.getD (.ofKeyword .currentOutputDir)
    :: t.inputs.flatMap fun input => input :: Preprocessing.directories ++ t.shared

/-- The templates that are composed for files, their directories first. -/
def FileBatch.composed (t : FileBatch) : List Template :=
  [.ofKeyword .currentOutputDir, t.outputDir.getD .empty, .ofKeyword .currentInputDir,
    t.inputDir.getD .empty] ++ t.inputs

/-- The templates that are composed for a conversion, its paths first. -/
def Conversion.composed (t : Conversion) : List Template :=
  [.ofKeyword .currentInputDir, t.input, .ofKeyword .currentOutputDir, t.output] ++ t.args

/-- The templates that are composed for an archive, its script last. -/
def Archive.composed (t : Archive) : List Template :=
  [.ofKeyword .currentInputDir, t.inputDir.getD .empty]
    ++ (t.inputs ++ [.ofKeyword .currentOutputDir, t.output, Target.Kind.archiver])

/-- The templates that are composed for the outputs of a regeneration. -/
def Regeneration.composedOutputs (t : Regeneration) : List Template :=
  match t.outputs with
  | some outputs => .ofKeyword .currentOutputDir :: outputs
  | none => [.ofKeyword .outputDir]

/-- The templates that are composed for a regeneration. -/
def Regeneration.composed (t : Regeneration) : List Template :=
  .ofKeyword .currentInputDir :: t.inputs.getD [.ofKeyword .descriptionFile]
    ++ (t.composedOutputs
      ++ .ofKeyword .currentInputDir :: t.implicits.getD [.ofKeyword .ownCommand])

/-- The templates that are composed for the edges of a target, in order.  For a deployment this
depends on the files, and no list is given. -/
def Target.composed : Target → List Template
  | .cpp t => t.composed
  | .cpps t => t.composed
  | .copy t => t.composed
  | .magick t => t.composed
  | .rsvgConvert t => t.composed
  | .minify t => t.composed ++ [Kind.minifier]
  | .zip t => t.composed
  | .regen t => t.composed
  | .rsync _ => []
  | .core _ => []

/-! ## Reports of targets -/

section Reports

variable {values : KeywordValues}

theorem Keyword.reportsOn_pathOf (k : Keyword) (name : String) :
    ReportsOn values [.ofKeyword k] (k.pathOf name) := by
  have hcompose : ReportsOn values [.ofKeyword k] (Template.ofKeyword k).compose :=
    Template.reportsOn_compose _
  have hvalue : ReportsOn values [.ofKeyword k] k.value := fun s hs => hcompose s hs
  exact hvalue.bind_pure (Path.join · name)

theorem Preprocessing.reportsOn_withDefines (edge : Edge) (defines : List Template) :
    ReportsOn values defines (withDefines edge defines) := by
  unfold withDefines
  split
  · next h =>
      rw [h]
      exact reports_pure edge
  · exact (Template.reportsOn_composeAll defines).bind_pure _

theorem Preprocessing.reportsOn_outputFor (t : Preprocessing) (input : String) :
    ReportsOn values t.output.toList (t.outputFor input) := by
  unfold outputFor
  cases t.output with
  | none => exact reports_pure _
  | some output => exact output.reportsOn_compose

theorem Preprocessing.reportsOn_edge (t : Preprocessing) : ReportsOn values t.composed t.edge :=
  t.input.reportsOn_compose.bind fun input => (t.reportsOn_outputFor input).bind fun output =>
    (Keyword.reportsOn_pathOf _ input).bind fun _ => (Keyword.reportsOn_pathOf _ output).bind
      fun _ => (Template.reportsOn_pathsIn _ _).bind fun _ => reportsOn_withDefines _ _

theorem PreprocessingBatch.reportsOn_edges (t : PreprocessingBatch) :
    ReportsOn values t.composed t.edges := by
  have hmember (inputDir outputDir : String) (input : Template) :
      ReportsOn values (input :: Preprocessing.directories ++ t.shared)
        (input.compose >>= fun name => (t.single inputDir outputDir name).edge) :=
    input.reportsOn_compose.bind fun name => (t.single inputDir outputDir name).reportsOn_edge
  exact (Template.reportsOn_compose _).bind fun inputDir => (Template.reportsOn_compose _).bind
    fun outputDir => .each (hmember inputDir outputDir) t.inputs

theorem FileBatch.reportsOn_edges (t : FileBatch) (kind : Target.Kind) :
    ReportsOn values t.composed (t.edges kind) := by
  have hstep (outDir inDir : String) (input : Template) :
      ReportsOn values [input] (input.compose >>= fun name => pure ({
        inputs := [Path.join inDir name], outputs := [Path.join outDir name],
        rule := kind.name } : Edge)) :=
    input.reportsOn_compose.bind_pure _
  have hall (outDir inDir : String) := ReportsOn.each (hstep outDir inDir) t.inputs
  rw [List.flatMap_singleton'] at hall
  exact (Template.reportsOn_pathIn _ _).bind fun outDir => (Template.reportsOn_pathIn _ _).bind
    fun inDir => hall outDir inDir

theorem FileBatch.reportsOn_minifiedEdges (t : FileBatch) :
    ReportsOn values (t.composed ++ [Target.Kind.minifier]) t.minifiedEdges :=
  (t.reportsOn_edges .minify).bind fun _ => (Template.reportsOn_compose _).bind_pure _

theorem Conversion.reportsOn_edge (t : Conversion) (kind : Target.Kind) :
    ReportsOn values t.composed (t.edge kind) :=
  (Template.reportsOn_pathIn _ _).bind fun _ => (Template.reportsOn_pathIn _ _).bind fun _ =>
    (Template.reportsOn_composeWords t.args).bind_pure _

theorem Archive.reportsOn_edge (t : Archive) : ReportsOn values t.composed t.edge :=
  (Template.reportsOn_pathIn _ _).bind fun _ => (Template.reportsOn_composeAll _).bind fun _ =>
    (Template.reportsOn_pathIn _ _).bind fun _ => (Template.reportsOn_compose _).bind_pure _

theorem Regeneration.reportsOn_outputPaths (t : Regeneration) :
    ReportsOn values t.composedOutputs t.outputPaths := by
  unfold composedOutputs outputPaths
  cases t.outputs with
  | some outputs => exact Template.reportsOn_pathsIn _ outputs
  | none => exact (Keyword.reportsOn_pathOf _ _).bind_pure _

theorem Regeneration.reportsOn_edge (t : Regeneration) : ReportsOn values t.composed t.edge :=
  (Template.reportsOn_pathsIn _ _).bind fun _ => t.reportsOn_outputPaths.bind fun _ =>
    (Template.reportsOn_pathsIn _ _).bind_pure _

/-- A target that is no deployment records the missing names of the templates that are composed for
it, in their order, and changes nothing else. -/
theorem Target.reportsOn_edges {t : Target} (h : t.kind ≠ .rsync) :
    ReportsOn values t.composed t.edges := by
  cases t with
  | cpp t => exact t.reportsOn_edge.bind_pure _
  | cpps t => exact t.reportsOn_edges
  | copy t => exact t.reportsOn_edges .copy
  | magick t => exact (t.reportsOn_edge .magick).bind_pure _
  | rsvgConvert t => exact (t.reportsOn_edge .rsvgConvert).bind_pure _
  | minify t => exact t.reportsOn_minifiedEdges
  | zip t => exact t.reportsOn_edge.bind_pure _
  | regen t => exact t.reportsOn_edge.bind_pure _
  | rsync => exact absurd rfl h
  | core e => exact reports_pure [e]

end Reports

/-! ## Mentions and reports -/

namespace Template

variable {name : String}

@[simp] theorem mentionsIn_nil : mentionsIn name [] = 0 := rfl

@[simp] theorem mentionsIn_cons (t : Template) (ts : List Template) :
    mentionsIn name (t :: ts) = t.mentions name + mentionsIn name ts := by
  simp [mentionsIn, mentions]

@[simp] theorem mentionsIn_append (ts ts' : List Template) :
    mentionsIn name (ts ++ ts') = mentionsIn name ts + mentionsIn name ts' := by
  simp [mentionsIn]

@[simp] theorem mentions_ofKeyword (k : Keyword) : (ofKeyword k).mentions name = 0 := rfl

@[simp] theorem mentions_below (k : Keyword) (text : String) :
    (below k text).mentions name = 0 := rfl

/-- What stands for an absent template mentions nothing if it is made of keywords and texts. -/
@[simp] theorem mentions_getD_ofKeyword (t : Option Template) (k : Keyword) :
    (t.getD (ofKeyword k)).mentions name = mentionsIn name t.toList := by
  cases t with
  | none => rfl
  | some t => simp

@[simp] theorem mentions_getD_empty (t : Option Template) :
    (t.getD empty).mentions name = mentionsIn name t.toList := by
  cases t with
  | none => rfl
  | some t => simp

@[simp] theorem mentionsIn_getD_ofKeyword (ts : Option (List Template)) (k : Keyword) :
    mentionsIn name (ts.getD [ofKeyword k]) = mentionsIn name (ts.getD []) := by
  cases ts <;> rfl

/-- Templates that are followed by the same ones each. -/
theorem mentionsIn_flatMap_cons (name : String) (ts shared : List Template) :
    mentionsIn name (ts.flatMap fun t => t :: shared)
      = mentionsIn name ts + ts.length * mentionsIn name shared := by
  induction ts with
  | nil => simp
  | cons t ts ih =>
      rw [List.flatMap_cons, mentionsIn_append, ih, mentionsIn_cons, mentionsIn_cons,
        List.length_cons, Nat.succ_mul]
      omega

/-- Where every keyword has a value, the names without one are those that are mentioned. -/
theorem count_missing {values : KeywordValues} (hvalues : ∀ k, (values k).isSome = true)
    (ts : List Template) : (ts.flatMap (missing values)).count name = mentionsIn name ts := by
  have hfragment (f : Fragment) : (f.missing? values == some name) = (f == .unknown name) := by
    cases f with
    | literal text => rfl
    | keyword k => simp [Fragment.missing?, hvalues k]
    | unknown other => simp [Fragment.missing?]
  induction ts with
  | nil => rfl
  | cons t ts ih =>
      rw [List.flatMap_cons, List.count_append, ih, mentionsIn_cons, missing, List.count_filterMap,
        mentions, List.count]
      simp only [hfragment]

end Template

theorem PreprocessingBatch.mentionsIn_composed (t : PreprocessingBatch) (name : String) :
    Template.mentionsIn name t.composed
      = Template.mentionsIn name t.own + t.inputs.length * Template.mentionsIn name t.shared := by
  have hmembers := Template.mentionsIn_flatMap_cons name t.inputs
    (Preprocessing.directories ++ t.shared)
  have hshared : Template.mentionsIn name (Preprocessing.directories ++ t.shared)
      = Template.mentionsIn name t.shared := by
    simp [Preprocessing.directories]
  rw [hshared] at hmembers
  rw [composed, own, Template.mentionsIn_cons, Template.mentionsIn_cons,
    Template.mentions_getD_ofKeyword, Template.mentions_getD_ofKeyword, Template.mentionsIn_append,
    Template.mentionsIn_append]
  simp only [List.cons_append]
  omega

/-- Every kind of target but a batch composes what its fields mention once. -/
theorem Target.mentionsIn_composed {t : Target} (hrsync : t.kind ≠ .rsync) (hcpps : t.kind ≠ .cpps)
    (name : String) :
    Template.mentionsIn name t.composed = Template.mentionsIn name t.templates := by
  cases t with
  | cpp t => simp [composed, templates, Preprocessing.composed, Preprocessing.directories]
  | cpps => exact absurd rfl hcpps
  | copy t => simp [composed, templates, FileBatch.composed]
  | magick t => simp [composed, templates, Conversion.composed]
  | rsvgConvert t => simp [composed, templates, Conversion.composed]
  | minify t => simp [composed, templates, FileBatch.composed, Kind.minifier]
  | zip t => simp [composed, templates, Archive.composed, Kind.archiver]
  | regen t =>
      have houtputs : Template.mentionsIn name t.composedOutputs
          = Template.mentionsIn name (t.outputs.getD []) := by
        unfold Regeneration.composedOutputs
        cases t.outputs <;> simp
      simp [composed, templates, Regeneration.composed, houtputs]
  | rsync => exact absurd rfl hrsync
  | core => rfl

/-- Where every keyword has a value, a target that is no deployment records errors for the names
that its fields mention and changes nothing else.  Each mention is recorded once, with one exact
exception: what the members of a batch share is recorded once for each of them. -/
theorem Target.reported_once_iff {s : Session} (hs : ∀ k, (s.keywords k).isSome = true)
    {t : Target} (ht : t.kind ≠ .rsync) (name : String) :
    ∃ recorded, (t.edges.run s).2 = s.addMissing recorded
      ∧ (recorded.count name = Template.mentionsIn name t.templates
        ↔ ∀ b, t = .cpps b → b.inputs.length = 1 ∨ Template.mentionsIn name b.shared = 0)
      ∧ ∀ b, t = .cpps b → recorded.count name
        = Template.mentionsIn name b.own + b.inputs.length * Template.mentionsIn name b.shared := by
  refine ⟨_, reportsOn_edges ht s rfl, ?_⟩
  rw [Template.count_missing hs]
  by_cases hcpps : t.kind = .cpps
  · obtain ⟨b, rfl⟩ : ∃ b, t = .cpps b := by
      cases t with
      | cpps b => exact ⟨b, rfl⟩
      | _ => cases hcpps
    have hcomposed := b.mentionsIn_composed name
    have hfields : Template.mentionsIn name (templates (.cpps b))
        = Template.mentionsIn name b.own + Template.mentionsIn name b.shared :=
      Template.mentionsIn_append b.own b.shared
    refine ⟨?_, ?_⟩
    · rw [hfields, show composed (.cpps b) = b.composed from rfl, hcomposed,
        Nat.add_left_cancel_iff]
      by_cases hshared : Template.mentionsIn name b.shared = 0
      · simp [hshared]
      · simp [hshared, Nat.mul_eq_right hshared]
    · rintro _ ⟨⟩
      exact hcomposed
  · refine ⟨iff_of_true (mentionsIn_composed ht hcpps name) ?_, ?_⟩
    · rintro b rfl
      exact absurd rfl hcpps
    · rintro b rfl
      exact absurd rfl hcpps

/-- A name in what the members share is recorded twice for two members, and never without any. -/
theorem Target.reported_once_iff_of_members :
    let defines := [Template.composed [.literal "A=", .unknown "X"]]
    let pair : PreprocessingBatch := { inputs := [.literal "a.in", .literal "b.in"], defines }
    let empty : PreprocessingBatch := { inputs := [], defines }
    let s := Session.ofInvocation "/site" "HAGA.lua" "haga" {} {}
    (∀ k, (s.keywords k).isSome = true)
      ∧ (Target.cpps pair).kind ≠ .rsync ∧ (Target.cpps empty).kind ≠ .rsync
      ∧ Template.mentionsIn "X" (Target.cpps pair).templates = 1
      ∧ Template.mentionsIn "X" (Target.cpps empty).templates = 1
      ∧ (∃ recorded, ((Target.cpps pair).edges.run s).2 = s.addMissing recorded
        ∧ recorded.count "X" = 2)
      ∧ ∃ recorded, ((Target.cpps empty).edges.run s).2 = s.addMissing recorded
        ∧ recorded.count "X" = 0 := by
  intro defines pair empty s
  have hvalues (k : Keyword) : (s.keywords k).isSome = true := by cases k <;> rfl
  have hpair : (Target.cpps pair).kind ≠ .rsync := by decide
  have hempty : (Target.cpps empty).kind ≠ .rsync := by decide
  obtain ⟨twice, htwice, -, hcount⟩ := reported_once_iff hvalues hpair "X"
  obtain ⟨never, hnever, -, hcount'⟩ := reported_once_iff hvalues hempty "X"
  exact ⟨hvalues, hpair, hempty, by decide, by decide, ⟨twice, htwice, hcount pair rfl⟩,
    ⟨never, hnever, hcount' empty rfl⟩⟩

end BuildGraph
