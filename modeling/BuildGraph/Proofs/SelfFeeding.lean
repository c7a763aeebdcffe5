import BuildGraph.Proofs.FinalPaths
import BuildGraph.Proofs.Mirroring

/-!
# Edges that feed on their own outputs

Inputs and outputs are read from directories of their own, so an edge has an output among its inputs
exactly if both lead to one place (`Path.Place`), which a path in normal form is the text of
(`Path.Place.text_inj`).  An absolute name replaces both directories, so of files that keep their
paths every absolute name feeds on itself.  A relative one does exactly if the directories are the
same after as many of them were left as the name leaves (`Path.join_eq_join_iff`).

Nothing looks for this: a description can be made into a graph without an error or a warning and
have an edge that feeds on its own output (`Description.feeds_unnoticed_of_absolute`).  Which
targets have such edges depends on their names and the keyword values alone
(`Description.feeds_iff`).
-/

namespace BuildGraph

open Build

namespace Path

/-! ## Places -/

/-- Where a path leads without a look at any file: from the root or not, and along which names.  Of
these only the first can be `..`, and only without a root. -/
structure Place where
  absolute : Bool
  names : List String
  deriving DecidableEq

/-- The place to which a path leads. -/
def place (p : String) : Place where
  absolute := isAbsolute p
  names := normalNames p

namespace Place

/-- A place as it is written. -/
def text (l : Place) : String := render l.absolute l.names

/-- The place with text behind its last name. -/
def withText (l : Place) (suffix : String) : Place :=
  { l with names := extendLast suffix l.names }

/-- The place after `n` directories were left. -/
def above (l : Place) (n : Nat) : Place :=
  { l with names := (List.replicate n Component.up).foldl (step l.absolute) l.names }

/-- The names of a place can be written: they are neither empty nor cut by a slash. -/
def IsWritten (l : Place) : Prop := ∀ n ∈ l.names, n ≠ "" ∧ '/' ∉ n.toList

/-- Places that can be written are the same if they are written the same. -/
theorem text_inj {l l' : Place} (h : l.IsWritten) (h' : l'.IsWritten) :
    l.text = l'.text ↔ l = l' := by
  refine ⟨fun htext => ?_, fun heq => heq ▸ rfl⟩
  obtain ⟨absolute, names⟩ := l
  obtain ⟨absolute', names'⟩ := l'
  obtain rfl : absolute = absolute' := by
    rw [← (moves_render h absolute).1, ← (moves_render h' absolute').1]
    exact congrArg isAbsolute htext
  have hjoin : Text.join "/" names = Text.join "/" names' :=
    (String.append_right_inj _).1 htext
  have hnil {n : String} {rest : List String} (hn : n ≠ "") : Text.join "/" (n :: rest) ≠ "" :=
    fun hempty => hn (Text.eq_of_join_eq_empty (by decide) hempty).1
  cases names with
  | nil =>
      cases names' with
      | nil => rfl
      | cons n' names' => exact absurd hjoin.symm (hnil (h' n' List.mem_cons_self).1)
  | cons n names =>
      cases names' with
      | nil => exact absurd hjoin (hnil (h n List.mem_cons_self).1)
      | cons n' names' =>
          rw [← pieces_join fun s hs => (h s hs).2, hjoin, pieces_join fun s hs => (h' s hs).2]

theorem IsWritten.withText {l : Place} (h : l.IsWritten) {suffix : String} (hne : suffix ≠ "")
    (hslash : '/' ∉ suffix.toList) : (l.withText suffix).IsWritten := by
  have hbehind {s : String} (hs : '/' ∉ s.toList) :
      s ++ suffix ≠ "" ∧ '/' ∉ (s ++ suffix).toList := by
    rw [String.toList_append, List.mem_append, not_or]
    exact ⟨fun hempty => hne (String.append_eq_empty_iff.1 hempty).2, hs, hslash⟩
  exact forall_mem_extendLast h (hbehind (by decide)) fun _ hn => hbehind hn.2

end Place

theorem isWritten_place (p : String) : (place p).IsWritten := by
  rw [Place.IsWritten, place, normalNames_eq]
  exact (isProper_settle_route p).names

/-- Paths in normal form are the same just if they lead to one place. -/
theorem normal_eq_normal_iff {p q : String} : normal p = normal q ↔ place p = place q :=
  Place.text_inj (isWritten_place p) (isWritten_place q)

/-- A path in normal form with text behind it leads to the place with the text behind its last
name. -/
theorem normal_eq_append_iff {p q suffix : String} (hne : suffix ≠ "")
    (hslash : '/' ∉ suffix.toList) :
    normal p = normal q ++ suffix ↔ place p = (place q).withText suffix := by
  rw [normal, normal, render_append]
  exact Place.text_inj (isWritten_place p) ((isWritten_place q).withText hne hslash)

/-! ## One name in two directories -/

/-- Where a route leads from any names: the directories are left one by one. -/
def Route.leave (r : Route) (absolute : Bool) (base : List String) : List String :=
  (List.replicate r.up Component.up).foldl (Path.step absolute) base ++ r.down

theorem Route.leave_step (r : Route) (c : Component) (absolute : Bool) (base : List String) :
    (r.step c).leave absolute base = Path.step absolute (r.leave absolute base) c := by
  cases c with
  | root => rfl
  | here => rfl
  | up =>
      by_cases hdown : r.down = []
      · simp only [step, leave, hdown, if_true, List.append_nil, List.replicate_succ',
          List.foldl_append, List.foldl_cons, List.foldl_nil]
      · simp [step, leave, Path.step, hdown, List.dropLast_append_of_ne_nil]
  | name s => simp [step, leave, Path.step]

theorem Route.foldl_leave (r : Route) (cs : List Component) (absolute : Bool)
    (base : List String) : (cs.foldl step r).leave absolute base
      = cs.foldl (Path.step absolute) (r.leave absolute base) := by
  induction cs generalizing r with
  | nil => rfl
  | cons c cs ih => rw [List.foldl_cons, List.foldl_cons, ih, leave_step]

/-- A relative name leads from a directory along its route. -/
theorem place_append {name : String} (h : isAbsolute name = false) (base : String) :
    place (append base name) = {
      absolute := isAbsolute base
      names := ((place base).above (route name).up).names ++ (route name).down } := by
  -- The components of the name lead on from the directory as from nowhere, along the route.
  have hleave := Route.foldl_leave {} (moves name) (isAbsolute base) (normalNames base)
  rw [← route_eq_foldl] at hleave
  rw [place, isAbsolute_append_of_not h, Path.normalNames_append h]
  refine congrArg (Place.mk (isAbsolute base)) (Eq.trans ?_ hleave.symm)
  simp [Route.leave]

/-- One name leads from two directories to one place just if it is absolute, or the directories are
the same after as many of them were left as the name leaves. -/
theorem join_eq_join_iff {base base' name : String} : join base name = join base' name
    ↔ isAbsolute name = true
      ∨ (place base).above (route name).up = (place base').above (route name).up := by
  cases h : isAbsolute name with
  | true => simp [join_of_isAbsolute h]
  | false =>
      rw [join, join, normal_eq_normal_iff, place_append h, place_append h]
      simp [Place.above, place]

end Path

open BuildGraph.Path

/-! ## Files of edges -/

/-- An edge has an output among its inputs. -/
def Edge.FeedsItself (e : Edge) : Prop := ∃ p ∈ e.outputs, p ∈ e.inputs

/-- Edges whose files are given one by one. -/
theorem Edge.exists_feedsItself_iff {α : Type} {es : List Edge} {l : List α}
    {files : α → List String × List String} (h : es.map Edge.files = l.map files) :
    (∃ e ∈ es, e.FeedsItself) ↔ ∃ a ∈ l, ∃ p ∈ (files a).2, p ∈ (files a).1 := by
  constructor
  · rintro ⟨e, he, hfeeds⟩
    obtain ⟨a, ha, hfiles⟩ := List.mem_map.1 (h ▸ List.mem_map_of_mem he)
    exact ⟨a, ha, by rwa [hfiles]⟩
  · rintro ⟨a, ha, hfeeds⟩
    obtain ⟨e, he, hfiles⟩ := List.mem_map.1 (h ▸ List.mem_map_of_mem ha)
    exact ⟨e, he, by rwa [← hfiles] at hfeeds⟩

namespace Preprocessing

variable {values : KeywordValues}

/-- The files of an edge whose input and output were composed. -/
def filesAt (values : KeywordValues) (input output : String) : List String × List String :=
  let output := join (Keyword.currentOutputDir.textAt values) output
  ([join (Keyword.currentInputDir.textAt values) input], [output, output ++ dependencySuffix])

theorem files_edgeBetween_eq (input output : String) (implicits defines : List Template) :
    Ensures values (fun e => e.files = filesAt values input output)
      (edgeBetween input output implicits defines) := by
  refine (Keyword.ensures_pathOf _ input).bind fun inputPath hinput => ?_
  refine (Keyword.ensures_pathOf _ output).bind fun outputPath houtput => ?_
  refine (Template.ensures_pathsIn _ _).bind fun implicits _ => ?_
  refine (composed_withDefines _ _).ensures.imp fun e he => ?_
  obtain ⟨hinputs, houtputs⟩ := files_withDefines
    (plainEdge inputPath outputPath implicits) defines { keywords := values }
  rw [he, filesAt, ← hinput, ← houtput]
  exact Prod.ext hinputs houtputs

/-- The output of a preprocessed file as it is written. -/
def outputText (t : Preprocessing) (values : KeywordValues) : String :=
  match t.output with
  | some output => output.textAt values
  | none => Text.withoutSuffix (t.input.textAt values) inputSuffix

theorem files_edge (t : Preprocessing) : Ensures values
    (fun e => e.files = filesAt values (t.input.textAt values) (t.outputText values)) t.edge := by
  have houtput : Ensures values (· = t.outputText values)
      (t.outputFor (t.input.textAt values)) := by
    unfold outputFor outputText
    cases t.output with
    | none => exact ensures_pure rfl
    | some output => exact output.ensures_compose
  refine t.input.ensures_compose.bind fun input hinput => ?_
  rw [hinput]
  refine houtput.bind fun output houtput => ?_
  rw [houtput]
  exact files_edgeBetween_eq _ _ t.implicits t.defines

/-- An input leads to the same place as an output or as the list of what was read for it. -/
def Collides (values : KeywordValues) (input output : String) : Prop :=
  let source := place (append (Keyword.currentInputDir.textAt values) input)
  let destination := place (append (Keyword.currentOutputDir.textAt values) output)
  source = destination ∨ source = destination.withText dependencySuffix

theorem feeds_filesAt_iff {input output : String} :
    (∃ p ∈ (filesAt values input output).2, p ∈ (filesAt values input output).1)
      ↔ Collides values input output := by
  simp only [filesAt, exists_eq_right, List.mem_cons, List.not_mem_nil, or_false]
  exact or_congr normal_eq_normal_iff (normal_eq_append_iff (by decide) (by decide))

end Preprocessing

theorem PreprocessingBatch.files_edges (t : PreprocessingBatch) (s : Session) :
    (t.edges.run s).1.map Edge.files = t.inputs.map fun input =>
      Preprocessing.filesAt s.keywords
        (join (t.inputBase s.keywords) (input.textAt s.keywords))
        (join (t.outputBase s.keywords)
          (Text.withoutSuffix (input.textAt s.keywords) Preprocessing.inputSuffix)) := by
  rw [fst_run_edges, List.map_map]
  refine List.map_congr_left fun input _ => ?_
  rw [Function.comp_apply, edge_single]
  exact (Preprocessing.files_edgeBetween_eq _ _ _ _).result { keywords := s.keywords } rfl

theorem Conversion.files_edge (t : Conversion) (kind : Target.Kind) {values : KeywordValues} :
    Ensures values (fun e => e.files
      = ([join (Keyword.currentInputDir.textAt values) (t.input.textAt values)],
        [join (Keyword.currentOutputDir.textAt values) (t.output.textAt values)]))
      (t.edge kind) := by
  refine (Template.ensures_pathIn _ _).bind fun input hinput => ?_
  refine (Template.ensures_pathIn _ _).bind fun output houtput => ?_
  refine (Template.composed_composeWords _).ensures.bind fun args _ => ensures_pure ?_
  rw [hinput, houtput, Template.textAt_ofKeyword, Template.textAt_ofKeyword]
  rfl

/-- The directory from which the files of an archive are read. -/
def Archive.source (t : Archive) (values : KeywordValues) : String :=
  join (Keyword.currentInputDir.textAt values) ((t.inputDir.getD .empty).textAt values)

theorem Archive.files_edge (t : Archive) {values : KeywordValues} :
    Ensures values (fun e => e.files
      = (t.inputs.map fun input => join (t.source values) (input.textAt values),
        [join (Keyword.currentOutputDir.textAt values) (t.output.textAt values)])) t.edge := by
  refine (Template.ensures_pathIn _ _).bind fun inDir hin => ?_
  refine (Template.ensures_composeAll _).bind fun names hnames => ?_
  refine (Template.ensures_pathIn _ _).bind fun output houtput => ?_
  refine (Template.ensures_compose _).bind fun script _ => ensures_pure ?_
  rw [hin, hnames, houtput, Template.textAt_ofKeyword, Template.textAt_ofKeyword]
  exact Prod.ext (List.map_map ..) rfl

/-! ## Targets that feed on their own outputs -/

/-- An input of an edge of the target leads where an output of the edge does.  Files that keep their
paths have one name for both, and what is deployed, taken as it is or made again is left open. -/
def Target.Collides (values : KeywordValues) : Target → Prop
  | .cpp t => Preprocessing.Collides values (t.input.textAt values) (t.outputText values)
  | .cpps t => ∃ input ∈ t.inputs,
      Preprocessing.Collides values (join (t.inputBase values) (input.textAt values))
        (join (t.outputBase values)
          (Text.withoutSuffix (input.textAt values) Preprocessing.inputSuffix))
  | .copy t | .minify t => ∃ input ∈ t.inputs, isAbsolute (input.textAt values) = true
      ∨ (place (t.source values)).above (route (input.textAt values)).up
        = (place (t.destination values)).above (route (input.textAt values)).up
  | .magick t | .rsvgConvert t =>
      place (append (Keyword.currentInputDir.textAt values) (t.input.textAt values))
        = place (append (Keyword.currentOutputDir.textAt values) (t.output.textAt values))
  | .zip t => ∃ input ∈ t.inputs, place (append (t.source values) (input.textAt values))
        = place (append (Keyword.currentOutputDir.textAt values) (t.output.textAt values))
  | .regen _ | .rsync _ | .core _ => False

instance (values : KeywordValues) (input output : String) :
    Decidable (Preprocessing.Collides values input output) :=
  inferInstanceAs (Decidable (_ ∨ _))

instance Target.decidableCollides (values : KeywordValues) :
    ∀ t : Target, Decidable (t.Collides values)
  | .cpp _ => inferInstanceAs (Decidable (Preprocessing.Collides values _ _))
  | .cpps t => inferInstanceAs (Decidable (∃ input ∈ t.inputs, Preprocessing.Collides values _ _))
  | .copy t | .minify t => inferInstanceAs (Decidable (∃ input ∈ t.inputs, _ ∨ _))
  | .magick _ | .rsvgConvert _ => inferInstanceAs (Decidable (_ = _))
  | .zip t => inferInstanceAs (Decidable (∃ input ∈ t.inputs, _ = _))
  | .regen _ | .rsync _ | .core _ => inferInstanceAs (Decidable False)

/-- Whether a target that processes files has an edge that feeds on its own output is a matter of
its names and the keyword values. -/
theorem Target.feeds_iff_collides {t : Target} (h : t.kind ∉ [.regen, .rsync, .core])
    (s : Session) : (∃ e ∈ (t.edges.run s).1, e.FeedsItself) ↔ t.Collides s.keywords := by
  have one {c : Build Edge} : (∃ e ∈ ((c >>= fun edge => pure [edge]).run s).1, e.FeedsItself)
      ↔ ∃ p ∈ (c.run s).1.files.2, p ∈ (c.run s).1.files.1 := by
    have hedges : ((c >>= fun edge => pure [edge]).run s).1 = [(c.run s).1] := rfl
    rw [hedges]
    simp only [List.mem_singleton, exists_eq_left]
    rfl
  have batch {u : FileBatch} {target : Target} (hu : target ∈ [copy u, minify u]) :
      (∃ e ∈ (target.edges.run s).1, e.FeedsItself) ↔ (copy u).Collides s.keywords := by
    rw [Edge.exists_feedsItself_iff (u.files_of_mem s hu)]
    simp only [List.mem_singleton, exists_eq_right, join_eq_join_iff, Collides]
  have conversion {u : Conversion} (kind : Kind) :
      (∃ e ∈ ((u.edge kind >>= fun edge => pure [edge]).run s).1, e.FeedsItself)
        ↔ (magick u).Collides s.keywords := by
    rw [one, (u.files_edge kind).result s rfl]
    simp only [List.mem_singleton, exists_eq_right]
    exact normal_eq_normal_iff
  cases t with
  | cpp t =>
      rw [Target.edges, one, t.files_edge.result s rfl, Preprocessing.feeds_filesAt_iff, Collides]
  | cpps t =>
      rw [Target.edges, Edge.exists_feedsItself_iff (t.files_edges s)]
      simp only [Preprocessing.feeds_filesAt_iff, Collides]
  | copy t => exact batch (by simp)
  | minify t => exact batch (by simp)
  | magick t => exact conversion .magick
  | rsvgConvert t => exact conversion .rsvgConvert
  | zip t =>
      rw [Target.edges, one, t.files_edge.result s rfl]
      simp only [List.mem_singleton, exists_eq_left, List.mem_map, Collides]
      exact exists_congr fun input => and_congr_right fun _ => normal_eq_normal_iff
  | regen t => exact absurd (by simp [kind]) h
  | rsync t => exact absurd (by simp [kind]) h
  | core t => exact absurd (by simp [kind]) h

/-! ## Descriptions -/

@[simp] theorem Edge.files_after (regen e : Edge) : (regen.after e).files = e.files := by
  unfold after
  split <;> rfl

namespace Description

/-- The graph of a description has the edges of its targets with their inputs and outputs, whatever
is recorded.  Of the targets that process files one has an edge with an output among its inputs
exactly if an input leads where an output of the same edge does: what is preprocessed, converted or
packed, by its own names; what keeps its path, if its name is absolute, or its directories are the
same after as many of them were left as the name leaves. -/
theorem feeds_iff (d : Description) (s : Session) :
    List.Forall₂ (fun t es => t.kind ∉ [.regen, .rsync, .core] →
        ((∃ e ∈ es, e.FeedsItself) ↔ t.Collides s.keywords)) d.targets (d.edgesByTarget s)
      ∧ (d.edgesByTarget s).flatten.map Edge.files <:+ (d.graph.run s).1.edges.map Edge.files := by
  have htarget (t : Target) : Ensures s.keywords (fun es => t.kind ∉ [.regen, .rsync, .core] →
      ((∃ e ∈ es, e.FeedsItself) ↔ t.Collides s.keywords)) t.edges := {
    result := fun s' hs' h => hs' ▸ Target.feeds_iff_collides h s'
    keywords := fun s' hs' => (t.keywords_edges s').trans hs' }
  have hkeywords : (d.registerRules.run s).2.keywords = s.keywords :=
    d.takes_registerRules.keywords s
  exact ⟨(Ensures.forall₂_each htarget d.targets).result _ hkeywords,
    d.map_suffix_graph Edge.files_after (fun _ _ => rfl) s⟩

/-- A picture is named from the source directory just as it is from the output directory, and a name
leaves so many directories that it leads to the root's from both.  The file that is preprocessed
lies where the list of what was read for it does. -/
theorem feeds_iff_of_names :
    let d : Description := {
      targets := [
        .magick { input := .literal "out/x.png", output := .literal "./x.png" },
        .copy { inputs := [.literal "a", .literal "../../../b"] },
        .cpp { input := .literal "out/c.d", output := some (.literal "c") },
        .copy { inputs := [.literal "a", .literal "../b"] }] }
    let s := Session.ofInvocation "/site" "HAGA.lua" "/usr/bin/haga" {} {}
    ∃ picture rootFile listed files, d.edgesByTarget s = [picture, rootFile, listed, files]
      ∧ (∃ e ∈ picture, e.FeedsItself) ∧ (∃ e ∈ rootFile, e.FeedsItself)
      ∧ (∃ e ∈ listed, e.FeedsItself) ∧ ¬∃ e ∈ files, e.FeedsItself := by
  intro d s
  obtain ⟨hfeeds, -⟩ := d.feeds_iff s
  generalize d.edgesByTarget s = edges at hfeeds
  obtain _ | ⟨hpicture, _ | ⟨hroot, _ | ⟨hlisted, _ | ⟨hfiles, _ | _⟩⟩⟩⟩ := hfeeds
  exact ⟨_, _, _, _, rfl, (hpicture (by decide)).2 (by decide +kernel),
    (hroot (by decide)).2 (by decide +kernel), (hlisted (by decide)).2 (by decide +kernel),
    fun h => absurd ((hfiles (by decide)).1 h) (by decide +kernel)⟩

/-- A file with an absolute name is copied to itself, and nothing is recorded. -/
theorem feeds_unnoticed_of_absolute :
    let d : Description := { targets := [.copy { inputs := [.literal "/etc/hosts"] }] }
    let s := Session.ofInvocation "/site" "HAGA.lua" "/usr/bin/haga" {} {}
    let e : Edge := { inputs := ["/etc/hosts"], outputs := ["/etc/hosts"], rule := "copy" }
    (d.graph.run s).2.errors = [] ∧ (d.graph.run s).2.warnings = []
      ∧ d.edgesByTarget s = [[e]] ∧ e.FeedsItself
      ∧ ∃ e' ∈ (d.graph.run s).1.edges, e'.rule = "copy" ∧ e'.FeedsItself := by
  intro d s e
  have hfeeds (e' : Edge) (h : e'.files = e.files) : e'.FeedsItself := by
    obtain ⟨hinputs, houtputs⟩ := Prod.mk.inj h
    rw [Edge.FeedsItself, hinputs, houtputs]
    exact ⟨"/etc/hosts", List.mem_cons_self, List.mem_cons_self⟩
  have hgraph : ∃ e' ∈ (d.graph.run s).1.edges, e'.rule = "copy" ∧ e'.files = e.files := by
    decide +kernel
  obtain ⟨e', he', hrule, hfiles⟩ := hgraph
  exact ⟨by decide +kernel, by decide +kernel, by decide +kernel, hfeeds e rfl,
    e', he', hrule, hfeeds e' hfiles⟩

end Description

end BuildGraph
