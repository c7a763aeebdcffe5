import BuildGraph.Proofs.Routes
import BuildGraph.Proofs.TargetEdges

/-!
# Batches of preprocessed files

A batch reads each of its names from its directories first, and the paths that it has then like a
single target does, from the directories of the description.  Without directories of its own this
changes nothing: a batch has the edges of its members one by one and leaves the same session
(`PreprocessingBatch.run_edges_eq_run_each`), since a path that was read from an absolute directory
stays where it is.

Files that are copied are read from directories that were read before.  A batch finds its inputs and
puts its outputs where files with the same names and directories are copied exactly if the names, as
they are written in the directories, keep their places as they are brought to normal form
(`PreprocessingBatch.placed_as_copied_iff`).
-/

namespace BuildGraph

open Build BuildGraph.Path

/-! ## Keywords with values -/

section Keyword

variable {s : Session} {k : Keyword} {text : String}

theorem Keyword.run_value_of_eq_some (h : s.keywords k = some text) :
    k.value.run s = (text, s) := by
  rw [Keyword.run_value, Keyword.textAt, Keyword.problemsOf, h]
  simp

theorem Keyword.run_pathOf_of_eq_some (h : s.keywords k = some text) (name : String) :
    (k.pathOf name).run s = (join text name, s) := by
  rw [Keyword.pathOf, run_bind, Keyword.run_value_of_eq_some h, run_pure]

theorem Template.run_ofKeyword_of_eq_some (h : s.keywords k = some text) :
    (Template.ofKeyword k).compose.run s = (text, s) := by
  have hrun : (Template.ofKeyword k).compose.run s
      = ((k.value.run s).1 ++ "", (k.value.run s).2) := rfl
  rw [hrun, Keyword.run_value_of_eq_some h, String.append_empty]

end Keyword

/-- Loops whose steps do the same do the same, as long as the steps keep what this depends on. -/
theorem Build.run_each_congr {α β : Type} {f g : α → Build β} {p : Session → Prop}
    (hstep : ∀ a s, p s → (f a).run s = (g a).run s) (hkeep : ∀ a s, p s → p ((g a).run s).2)
    (l : List α) {s : Session} (hs : p s) : (Build.each f l).run s = (Build.each g l).run s := by
  induction l generalizing s with
  | nil => rfl
  | cons a l ih =>
      rw [Build.each, Build.each, run_bind, run_bind, hstep a s hs, run_bind, run_bind,
        ih (hkeep a s hs)]

/-! ## Preprocessed files -/

namespace Preprocessing

/-- The edge of a file whose input and output were composed. -/
def edgeBetween (input output : String) (implicits defines : List Template) : Build Edge := do
  let inputPath ← Keyword.currentInputDir.pathOf input
  let outputPath ← Keyword.currentOutputDir.pathOf output
  let implicits ← Template.pathsIn (.ofKeyword .inputDir) implicits
  withDefines (plainEdge inputPath outputPath implicits) defines

theorem edge_eq (t : Preprocessing) : t.edge = t.input.compose >>= fun input =>
    t.outputFor input >>= fun output => edgeBetween input output t.implicits t.defines := rfl

/-- Definitions have nothing to do with the files. -/
theorem files_withDefines (edge : Edge) (defines : List Template) :
    Yields (fun e => e.inputs = edge.inputs ∧ e.outputs = edge.outputs)
      (withDefines edge defines) := by
  unfold withDefines
  split
  · exact yields_pure ⟨rfl, rfl⟩
  · exact yields_bind fun _ => yields_pure ⟨rfl, rfl⟩

variable {s : Session} {inDir outDir : String}

/-- The files of an edge are read from the directories of the description. -/
theorem files_edgeBetween (hin : s.keywords .currentInputDir = some inDir)
    (hout : s.keywords .currentOutputDir = some outDir) (input output : String)
    (implicits defines : List Template) :
    ((edgeBetween input output implicits defines).run s).1.inputs = [join inDir input]
      ∧ ((edgeBetween input output implicits defines).run s).1.outputs.head?
        = some (join outDir output) := by
  rw [edgeBetween, run_bind, Keyword.run_pathOf_of_eq_some hin, run_bind,
    Keyword.run_pathOf_of_eq_some hout, run_bind]
  obtain ⟨hinputs, houtputs⟩ := files_withDefines _ defines _
  rw [hinputs, houtputs]
  exact ⟨rfl, rfl⟩

/-- Paths that were read from the directories of the description may be read from them again. -/
theorem run_edgeBetween_join (hin : s.keywords .currentInputDir = some inDir)
    (hin' : isAbsolute inDir = true) (hout : s.keywords .currentOutputDir = some outDir)
    (hout' : isAbsolute outDir = true) (input output : String)
    (implicits defines : List Template) :
    (edgeBetween (join inDir input) (join outDir output) implicits defines).run s
      = (edgeBetween input output implicits defines).run s := by
  simp only [edgeBetween, run_bind, Keyword.run_pathOf_of_eq_some hin,
    Keyword.run_pathOf_of_eq_some hout, join_join_self hin', join_join_self hout']

end Preprocessing

namespace PreprocessingBatch

/-- One input of a batch as a target of its own, which has no output of its own. -/
def alone (t : PreprocessingBatch) (input : Template) : Preprocessing where
  input := input
  implicits := t.implicits
  defines := t.defines

/-- The directory in which the inputs of a batch are found, as it is written. -/
def inputBase (t : PreprocessingBatch) (values : KeywordValues) : String :=
  (t.inputDir.getD (.ofKeyword .currentInputDir)).textAt values

/-- The directory in which the outputs of a batch are put, as it is written. -/
def outputBase (t : PreprocessingBatch) (values : KeywordValues) : String :=
  (t.outputDir.getD (.ofKeyword .currentOutputDir)).textAt values

theorem edge_single (t : PreprocessingBatch) (inputDir outputDir name : String) :
    (t.single inputDir outputDir name).edge
      = Preprocessing.edgeBetween (join inputDir name)
        (join outputDir (Text.withoutSuffix name Preprocessing.inputSuffix))
        t.implicits t.defines := by
  rw [Preprocessing.edge_eq]
  simp only [single, Template.compose, Preprocessing.outputFor, pure_bind]

theorem edge_alone (t : PreprocessingBatch) (input : Template) :
    (t.alone input).edge = input.compose >>= fun name =>
      Preprocessing.edgeBetween name (Text.withoutSuffix name Preprocessing.inputSuffix)
        t.implicits t.defines := by
  rw [Preprocessing.edge_eq]
  simp only [alone, Preprocessing.outputFor, pure_bind]

/-! ## Members one by one -/

variable {s : Session} {inDir outDir : String}

/-- In the directories of the description an input of a batch has the edge of a single target. -/
theorem run_edge_single (t : PreprocessingBatch)
    (hin : s.keywords .currentInputDir = some inDir) (hin' : isAbsolute inDir = true)
    (hout : s.keywords .currentOutputDir = some outDir) (hout' : isAbsolute outDir = true)
    (input : Template) :
    (input.compose >>= fun name => (t.single inDir outDir name).edge).run s
      = (t.alone input).edge.run s := by
  have hkeywords : (input.compose.run s).2.keywords = s.keywords := by
    rw [input.composed_compose.composes s]
    rfl
  rw [← hkeywords] at hin hout
  rw [edge_alone, run_bind, run_bind, edge_single,
    Preprocessing.run_edgeBetween_join hin hin' hout hout']

/-- A batch without directories of its own does what its members do one by one. -/
theorem run_edges_eq_run_each {t : PreprocessingBatch} (hinputDir : t.inputDir = none)
    (houtputDir : t.outputDir = none) (hin : s.keywords .currentInputDir = some inDir)
    (hin' : isAbsolute inDir = true) (hout : s.keywords .currentOutputDir = some outDir)
    (hout' : isAbsolute outDir = true) :
    t.edges.run s = (Build.each (fun input => (t.alone input).edge) t.inputs).run s := by
  rw [edges, hinputDir, houtputDir, Option.getD_none, Option.getD_none, run_bind,
    Template.run_ofKeyword_of_eq_some hin, run_bind, Template.run_ofKeyword_of_eq_some hout]
  refine run_each_congr (p := fun s' => s'.keywords = s.keywords) (fun input s' hs' => ?_)
    (fun input s' hs' => ?_) t.inputs rfl
  · rw [← hs'] at hin hout
    exact t.run_edge_single hin hin' hout hout' input
  · rw [(t.alone input).composed_edge.composes s']
    exact hs'

/-- An input that leads out of the directory and a name that is missing. -/
theorem run_edges_eq_run_each_of_missing :
    let t : PreprocessingBatch := {
      inputs := [.literal "../../a.in", .composed [.unknown "X", .literal "b"]]
      implicits := [.literal "h"]
      defines := [.composed [.unknown "Y"]] }
    let s := Session.ofInvocation "/site" "d/HAGA.lua" "haga" {} {}
    s.keywords .currentInputDir = some "/site/d"
      ∧ s.keywords .currentOutputDir = some "/site/out/d"
      ∧ t.edges.run s = (Build.each (fun input => (t.alone input).edge) t.inputs).run s
      ∧ (t.edges.run s).1.map (fun e => (e.inputs, e.outputs))
        = [(["/a.in"], ["/site/a", "/site/a.d"]),
          (["/site/d/b"], ["/site/out/d/b", "/site/out/d/b.d"])]
      ∧ (t.edges.run s).2.errors
        = [.missingKeyword "Y", .missingKeyword "X", .missingKeyword "Y"] := by
  intro t s
  have hin : s.keywords .currentInputDir = some "/site/d" := by decide +kernel
  have hout : s.keywords .currentOutputDir = some "/site/out/d" := by decide +kernel
  exact ⟨hin, hout, run_edges_eq_run_each rfl rfl hin (by decide) hout (by decide),
    by decide +kernel, by decide +kernel⟩

/-! ## Batches and copies -/

/-- The files of a batch, to be copied from the same directory to the same directory. -/
def files (t : PreprocessingBatch) : FileBatch where
  inputs := t.inputs
  inputDir := t.inputDir
  outputDir := t.outputDir

theorem fst_run_edges (t : PreprocessingBatch) (s : Session) :
    (t.edges.run s).1 = t.inputs.map fun input =>
      (t.single (t.inputBase s.keywords) (t.outputBase s.keywords)
        (input.textAt s.keywords)).edge.valueAt s.keywords := by
  have hstep (inputDir outputDir : String) (input : Template) :
      (input.compose >>= fun name => (t.single inputDir outputDir name).edge).Composed :=
    input.composed_compose.bind fun _ => Preprocessing.composed_edge _
  have hall (inputDir outputDir : String) := Composed.each (hstep inputDir outputDir) t.inputs
  rw [t.composed_edges.composes s, edges, (Template.composed_compose _).valueAt_bind fun _ =>
    (Template.composed_compose _).bind fun _ => hall _ _,
    (Template.composed_compose _).valueAt_bind fun _ => hall _ _, Template.valueAt_compose,
    Template.valueAt_compose, Composed.valueAt_each (hstep _ _)]
  refine List.map_congr_left fun input _ => ?_
  rw [input.composed_compose.valueAt_bind fun _ => Preprocessing.composed_edge _,
    Template.valueAt_compose]
  rfl

/-- An edge of a batch has the paths of its name in the directories of the batch, read again from
those of the description. -/
theorem exists_edge (t : PreprocessingBatch) (hin : s.keywords .currentInputDir = some inDir)
    (hout : s.keywords .currentOutputDir = some outDir) {i : Nat} {input : Template}
    (h : t.inputs[i]? = some input) :
    ∃ e, (t.edges.run s).1[i]? = some e
      ∧ e.inputs = [join inDir (join (t.inputBase s.keywords) (input.textAt s.keywords))]
      ∧ e.outputs.head? = some (join outDir (join (t.outputBase s.keywords)
        (Text.withoutSuffix (input.textAt s.keywords) Preprocessing.inputSuffix))) := by
  refine ⟨_, ?_, Preprocessing.files_edgeBetween (s := { keywords := s.keywords }) hin hout _ _
    t.implicits t.defines⟩
  rw [fst_run_edges, List.getElem?_map, h, Option.map_some, edge_single]
  rfl

end PreprocessingBatch

namespace FileBatch

variable {s : Session} {inDir outDir : String}

/-- The directory from which the files of a batch are read. -/
def source (t : FileBatch) (values : KeywordValues) : String :=
  join (Keyword.currentInputDir.textAt values) ((t.inputDir.getD .empty).textAt values)

/-- The directory to which the files of a batch are put. -/
def destination (t : FileBatch) (values : KeywordValues) : String :=
  join (Keyword.currentOutputDir.textAt values) ((t.outputDir.getD .empty).textAt values)

/-- The edges of a batch read each name from both directories. -/
theorem edges_eq (t : FileBatch) (kind : Target.Kind) (s : Session) :
    ((t.edges kind).run s).1 = t.inputs.map fun input => {
      inputs := [join (t.source s.keywords) (input.textAt s.keywords)]
      outputs := [join (t.destination s.keywords) (input.textAt s.keywords)]
      rule := kind.name } := by
  have hstep (outDir inDir : String) (input : Template) :
      (input.compose >>= fun name => pure ({
        inputs := [join inDir name], outputs := [join outDir name], rule := kind.name } : Edge)
          : Build Edge).Composed :=
    input.composed_compose.bind fun _ => .pure _
  have hall (outDir inDir : String) := Composed.each (hstep outDir inDir) t.inputs
  rw [(t.composed_edges kind).composes s, edges,
    (Template.composed_pathIn _ _).valueAt_bind fun _ =>
      (Template.composed_pathIn _ _).bind fun _ => hall _ _,
    (Template.composed_pathIn _ _).valueAt_bind fun _ => hall _ _, Template.valueAt_pathIn,
    Template.valueAt_pathIn, Composed.valueAt_each (hstep _ _), Template.textAt_ofKeyword,
    Template.textAt_ofKeyword]
  refine List.map_congr_left fun input _ => ?_
  rw [input.composed_compose.valueAt_bind fun _ => .pure _, valueAt_pure, Template.valueAt_compose]
  rfl

/-- A name in its directory is read from the directory of the description, for which an absent
directory stands as well. -/
theorem join_directory {values : KeywordValues} {k : Keyword} {base : String}
    (h : values k = some base) (hbase : isAbsolute base = true) (dir : Option Template)
    (name : String) : join (join (k.textAt values) ((dir.getD .empty).textAt values)) name
      = join base (append ((dir.getD (.ofKeyword k)).textAt values) name) := by
  have hk : k.textAt values = base := by rw [Keyword.textAt, h, Option.getD_some]
  rw [hk, join_join hbase]
  cases dir with
  | some dir => rfl
  | none =>
      have hempty : append "" name = name := by
        rw [append]
        split
        · rfl
        · rw [if_pos (.inl rfl), String.empty_append]
      rw [Option.getD_none, Option.getD_none, Template.textAt_ofKeyword, hk,
        join_of_isAbsolute (isAbsolute_append hbase name), Template.empty, Template.textAt_literal,
        hempty, join]

theorem fst_run_edges (t : FileBatch) (kind : Target.Kind)
    (hin : s.keywords .currentInputDir = some inDir) (hin' : isAbsolute inDir = true)
    (hout : s.keywords .currentOutputDir = some outDir) (hout' : isAbsolute outDir = true) :
    ((t.edges kind).run s).1 = t.inputs.map fun input => {
      inputs := [join inDir (append ((t.inputDir.getD (.ofKeyword .currentInputDir)).textAt
        s.keywords) (input.textAt s.keywords))]
      outputs := [join outDir (append ((t.outputDir.getD (.ofKeyword .currentOutputDir)).textAt
        s.keywords) (input.textAt s.keywords))]
      rule := kind.name } := by
  rw [edges_eq]
  refine List.map_congr_left fun input _ => ?_
  rw [source, destination, join_directory hin hin', join_directory hout hout']

end FileBatch

namespace PreprocessingBatch

variable {s : Session} {inDir outDir : String}

/-- A batch finds an input where a file of the same name and directories would be copied from, and
puts its output where that file would be copied to without its suffix, exactly if the name as it is
written in the directory keeps its place as it is brought to normal form. -/
theorem placed_as_copied_iff (t : PreprocessingBatch)
    (hin : s.keywords .currentInputDir = some inDir) (hin' : isAbsolute inDir = true)
    (hout : s.keywords .currentOutputDir = some outDir) (hout' : isAbsolute outDir = true) :
    (t.edges.run s).1.length = t.inputs.length
      ∧ ((t.files.edges .copy).run s).1.length = t.inputs.length
      ∧ ∀ (i : Nat) (input : Template), t.inputs[i]? = some input →
        let name := input.textAt s.keywords
        let bare := Text.withoutSuffix name Preprocessing.inputSuffix
        ∃ e c d, (t.edges.run s).1[i]? = some e ∧ ((t.files.edges .copy).run s).1[i]? = some c
          ∧ (({ t.files with inputs := [.literal bare] }.edges .copy).run s).1 = [d]
          ∧ (e.inputs = c.inputs
            ↔ KeepsPlace inDir (append (t.inputBase s.keywords) name))
          ∧ (e.outputs.head? = d.outputs.head?
            ↔ KeepsPlace outDir (append (t.outputBase s.keywords) bare)) := by
  have hcopies (u : FileBatch) := u.fst_run_edges .copy hin hin' hout hout'
  refine ⟨?_, ?_, fun i input hinput => ?_⟩
  · rw [fst_run_edges, List.length_map]
  · rw [hcopies, List.length_map]
    rfl
  · intro name bare
    obtain ⟨e, he, hinputs, houtputs⟩ := t.exists_edge hin hout hinput
    have hc := congrArg (·[i]?) (hcopies t.files)
    have hd := hcopies { t.files with inputs := [.literal bare] }
    simp only [List.getElem?_map, files, hinput, Option.map_some] at hc
    rw [List.map_singleton] at hd
    refine ⟨e, _, _, he, hc, hd, ?_, ?_⟩
    · rw [hinputs, ← join_normal_eq_iff hin']
      exact List.singleton_inj
    · rw [houtputs, ← join_normal_eq_iff hout', List.head?_singleton, Template.textAt_literal]
      exact Option.some_inj

/-- A batch that is to leave two directories leaves none. -/
theorem placed_as_copied_of_two_up :
    let t : PreprocessingBatch := {
      inputs := [.literal "x.in"]
      inputDir := some (.literal "../..")
      outputDir := some (.literal "../..") }
    let s := Session.ofInvocation "/site" "a/b/HAGA.lua" "haga" {} {}
    s.keywords .currentInputDir = some "/site/a/b"
      ∧ s.keywords .currentOutputDir = some "/site/out/a/b"
      ∧ (∃ e c d, (t.edges.run s).1[0]? = some e ∧ ((t.files.edges .copy).run s).1[0]? = some c
        ∧ (({ t.files with inputs := [.literal "x"] }.edges .copy).run s).1 = [d]
        ∧ e.inputs ≠ c.inputs ∧ e.outputs.head? ≠ d.outputs.head?)
      ∧ (t.edges.run s).1.map (fun e => (e.inputs, e.outputs))
        = [(["/site/a/b/x.in"], ["/site/out/a/b/x", "/site/out/a/b/x.d"])]
      ∧ ((t.files.edges .copy).run s).1.map (fun e => (e.inputs, e.outputs))
        = [(["/site/x.in"], ["/site/out/x.in"])] := by
  intro t s
  have hin : s.keywords .currentInputDir = some "/site/a/b" := by decide +kernel
  have hout : s.keywords .currentOutputDir = some "/site/out/a/b" := by decide +kernel
  have hname : Text.withoutSuffix ((Template.literal "x.in").textAt s.keywords)
      Preprocessing.inputSuffix = "x" := by decide +kernel
  obtain ⟨-, -, hplaced⟩ := t.placed_as_copied_iff hin (by decide) hout (by decide)
  obtain ⟨e, c, d, he, hc, hd, hinputs, houtputs⟩ := hplaced 0 (.literal "x.in") rfl
  rw [hname] at hd houtputs
  refine ⟨hin, hout, ⟨e, c, d, he, hc, hd, fun h => ?_, fun h => ?_⟩, by decide +kernel,
    by decide +kernel⟩
  · exact absurd (hinputs.1 h) (by decide +kernel)
  · exact absurd (houtputs.1 h) (by decide +kernel)

end PreprocessingBatch

end BuildGraph
