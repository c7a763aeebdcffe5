import BuildGraph.Proofs.Batches
import BuildGraph.Proofs.DeployCommand

/-!
# Final paths

The paths of an edge are final: they are absolute, and a name stands in every place of them
(`Path.IsFinal`), so they are the paths of locations (`Path.isFinal_iff`).  A name that is read
from an absolute directory has such a path, whatever it is (`Path.isFinal_join`), and text behind
it, if it is more than dots and has no slash, leads to another (`Path.IsFinal.withText`).

What a computation gives in the sessions with certain keyword values (`Build.Ensures`) follows from
what its steps give, as none of them changes the values.  In a run from an absolute working
directory the keywords for directories have absolute paths (`Session.isRooted_invocationKeywords`),
and every kind of target reads its inputs and outputs from these, so their paths are final; only
the alias of a deployment is a name (`Target.final_paths`).
-/

namespace BuildGraph

open Build

namespace Path

/-! ## Text behind names -/

/-- Names with text behind the last of them; without names the text stands alone. -/
def extendLast (suffix : String) (names : List String) : List String :=
  names.dropLast ++ [names.getLast?.getD "" ++ suffix]

theorem extendLast_concat (suffix : String) (front : List String) (name : String) :
    extendLast suffix (front ++ [name]) = front ++ [name ++ suffix] := by
  simp [extendLast]

/-- Names keep a property if text behind the last of them does not take it away. -/
theorem forall_mem_extendLast {p : String → Prop} {suffix : String} {names : List String}
    (h : ∀ n ∈ names, p n) (halone : p ("" ++ suffix)) (hbehind : ∀ n, p n → p (n ++ suffix)) :
    ∀ n ∈ extendLast suffix names, p n := by
  obtain rfl | ⟨front, name, rfl⟩ := List.eq_nil_or_concat names
  · exact List.forall_mem_singleton.2 halone
  · rw [List.concat_eq_append] at h ⊢
    obtain ⟨hfront, hname⟩ := List.forall_mem_append.1 h
    rw [extendLast_concat]
    exact List.forall_mem_append.2 ⟨hfront, List.forall_mem_singleton.2
      (hbehind name (List.forall_mem_singleton.1 hname))⟩

/-- Text behind a path stands behind its last name. -/
theorem render_append (absolute : Bool) (names : List String) (suffix : String) :
    render absolute names ++ suffix = render absolute (extendLast suffix names) := by
  rw [render, render, String.append_assoc]
  congr 1
  obtain rfl | ⟨front, name, rfl⟩ := List.eq_nil_or_concat names
  · simp [extendLast]
  · rw [List.concat_eq_append, extendLast_concat]
    cases front with
    | nil => rfl
    | cons n front =>
        rw [Text.join_append, Text.join_append, Text.join_singleton, Text.join_singleton,
          String.append_assoc, String.append_assoc]

/-- Text that can stand behind a name: there is more in it than dots, and no slash. -/
structure IsTail (suffix : String) : Prop where
  busy : ∃ c ∈ suffix.toList, c ≠ '.'
  no_slash : '/' ∉ suffix.toList

instance (suffix : String) : Decidable (IsTail suffix) :=
  decidable_of_iff (suffix.toList.any (· ≠ '.') = true ∧ '/' ∉ suffix.toList)
    ⟨fun ⟨hb, hs⟩ => ⟨by simpa using hb, hs⟩, fun ⟨hb, hs⟩ => ⟨by simpa using hb, hs⟩⟩

/-- With such text behind it any text without a slash is a name. -/
theorem IsTail.isEntryName {suffix : String} (h : IsTail suffix) {s : String}
    (hs : '/' ∉ s.toList) : IsEntryName (s ++ suffix) := by
  obtain ⟨c, hc, hdot⟩ := h.busy
  have hmem : c ∈ (s ++ suffix).toList := by
    rw [String.toList_append]
    exact List.mem_append_right _ hc
  have hne {t : String} (ht : t.toList.all (· = '.') = true) : s ++ suffix ≠ t := by
    rintro rfl
    exact hdot (by simpa using List.all_eq_true.1 ht c hmem)
  refine ⟨hne (by decide), hne (by decide), hne (by decide), ?_⟩
  rw [String.toList_append]
  exact fun hslash => (List.mem_append.1 hslash).elim hs h.no_slash

theorem isEntryName_of_mem_extendLast {suffix : String} (h : IsTail suffix) {names : List String}
    (hnames : ∀ n ∈ names, IsEntryName n) : ∀ n ∈ extendLast suffix names, IsEntryName n :=
  forall_mem_extendLast hnames (h.isEntryName (by decide)) fun _ hn => h.isEntryName hn.no_slash

/-! ## Final paths -/

/-- A path of an edge is absolute, and but for the root none of its pieces is empty, a dot or two
dots, not even behind a trailing slash. -/
structure IsFinal (p : String) : Prop where
  absolute : isAbsolute p = true
  named : p ≠ "/" → ∀ piece ∈ (pieces p).tail, piece ≠ "" ∧ piece ≠ "." ∧ piece ≠ ".."

theorem isFinal_path {l : Location} (h : ∀ n ∈ l, IsEntryName n) : IsFinal l.path where
  absolute := isAbsolute_path l
  named := by
    intro hroot piece hpiece
    rw [pieces_path h, List.tail_cons, if_neg] at hpiece
    · exact ⟨(h piece hpiece).ne_empty, (h piece hpiece).ne_dot, (h piece hpiece).ne_dots⟩
    · rintro rfl
      exact hroot rfl

/-- The final paths are the paths of locations. -/
theorem isFinal_iff {p : String} :
    IsFinal p ↔ ∃ l : Location, (∀ n ∈ l, IsEntryName n) ∧ l.path = p := by
  constructor
  · intro h
    by_cases hroot : p = "/"
    · exact ⟨[], List.forall_mem_nil _, hroot.symm⟩
    · cases hpieces : pieces p with
      | nil => exact absurd (List.map_eq_nil_iff.1 hpieces) (Text.cut_ne_nil '/' _)
      | cons piece rest =>
          obtain ⟨rfl, hrest⟩ := (isAbsolute_of_pieces_eq hpieces).1 h.absolute
          have hnamed := h.named hroot
          rw [hpieces, List.tail_cons] at hnamed
          refine ⟨rest, fun n hn => ⟨(hnamed n hn).1, (hnamed n hn).2.1, (hnamed n hn).2.2,
            mem_pieces (p := p) (hpieces ▸ List.mem_cons_of_mem _ hn)⟩, ?_⟩
          obtain ⟨n, rest, rfl⟩ := List.exists_cons_of_ne_nil hrest
          rw [← join_pieces p, hpieces, Text.join_cons_cons, String.empty_append]
          rfl
  · rintro ⟨l, hl, rfl⟩
    exact isFinal_path hl

/-- The normal form of an absolute path is final. -/
theorem isFinal_normal {p : String} (h : isAbsolute p = true) : IsFinal (normal p) :=
  isFinal_iff.2 ⟨normalNames p, fun _ => isEntryName_of_mem_normalNames h, path_normalNames h⟩

/-- What is read from an absolute directory has a final path. -/
theorem isFinal_join {base : String} (h : isAbsolute base = true) (name : String) :
    IsFinal (join base name) := isFinal_normal (isAbsolute_append h name)

/-- Text behind a final path. -/
theorem IsFinal.withText {p suffix : String} (h : IsFinal p) (hsuffix : IsTail suffix) :
    IsFinal (p ++ suffix) := by
  obtain ⟨l, hl, rfl⟩ := isFinal_iff.1 h
  rw [Location.path, render_append]
  exact isFinal_path (isEntryName_of_mem_extendLast hsuffix hl)

/-- A path above an absolute one is absolute. -/
theorem isAbsolute_of_parent? {p dir : String} (hp : isAbsolute p = true)
    (h : parent? p = some dir) : isAbsolute dir = true := by
  cases hpieces : pieces p with
  | nil => exact absurd (List.map_eq_nil_iff.1 hpieces) (Text.cut_ne_nil '/' _)
  | cons piece rest =>
      obtain ⟨rfl, -⟩ := (isAbsolute_of_pieces_eq hpieces).1 hp
      simp only [parent?, hpieces, if_true] at h
      split at h
      · cases h
      · cases hrest : dropLastComponent rest with
        | nil =>
            rw [hrest] at h
            obtain rfl := Option.some.inj h
            rfl
        | cons n names =>
            rw [hrest] at h
            obtain rfl := Option.some.inj h
            rw [Text.join_cons_cons, String.empty_append]
            exact isAbsolute_path (n :: names)

end Path

open BuildGraph.Path

/-! ## Directories of a run -/

/-- The keywords for directories have absolute paths. -/
structure KeywordValues.IsRooted (values : KeywordValues) : Prop where
  inputDir : isAbsolute (Keyword.inputDir.textAt values) = true
  outputDir : isAbsolute (Keyword.outputDir.textAt values) = true
  currentInputDir : isAbsolute (Keyword.currentInputDir.textAt values) = true
  currentOutputDir : isAbsolute (Keyword.currentOutputDir.textAt values) = true

/-- From an absolute working directory all directories of a run are absolute, wherever the
description lies. -/
theorem Session.isRooted_invocationKeywords {cwd : String} (h : isAbsolute cwd = true)
    (file command : String) (tools : Toolset) :
    (invocationKeywords cwd file command tools).IsRooted where
  inputDir := h
  outputDir := isAbsolute_append h outDirectory
  currentInputDir := by
    simp only [Keyword.textAt, invocationKeywords, Option.getD_some]
    cases hparent : parent? (join cwd file) with
    | none => exact h
    | some dir => exact isAbsolute_of_parent? (isAbsolute_join h file) hparent
  currentOutputDir := isAbsolute_join (isAbsolute_append h outDirectory) _

/-! ## Results in sessions with certain keyword values -/

namespace Build

variable {α β : Type} {values : KeywordValues}

/-- In every session with these keyword values a computation keeps them, and its result has a
property. -/
structure Ensures (values : KeywordValues) (p : α → Prop) (c : Build α) : Prop where
  result (s : Session) (hs : s.keywords = values) : p (c.run s).1
  keywords (s : Session) (hs : s.keywords = values) : (c.run s).2.keywords = values

theorem ensures_pure {p : α → Prop} {a : α} (h : p a) : Ensures values p (pure a : Build α) where
  result _ _ := h
  keywords _ hs := hs

/-- What follows a computation may rely on its result. -/
theorem Ensures.bind {q : α → Prop} {p : β → Prop} {c : Build α} {f : α → Build β}
    (hc : Ensures values q c) (hf : ∀ a, q a → Ensures values p (f a)) :
    Ensures values p (c >>= f) where
  result s hs := (hf _ (hc.result s hs)).result _ (hc.keywords s hs)
  keywords s hs := (hf _ (hc.result s hs)).keywords _ (hc.keywords s hs)

theorem Ensures.imp {p q : α → Prop} {c : Build α} (hc : Ensures values p c)
    (h : ∀ a, p a → q a) : Ensures values q c where
  result s hs := h _ (hc.result s hs)
  keywords := hc.keywords

/-- Each result of a loop belongs to its item. -/
theorem Ensures.forall₂_each {p : α → β → Prop} {step : α → Build β}
    (h : ∀ a, Ensures values (p a) (step a)) (l : List α) :
    Ensures values (List.Forall₂ p l) (Build.each step l) := by
  induction l with
  | nil => exact ensures_pure .nil
  | cons a l ih =>
      exact (h a).bind fun b hb => ih.bind fun bs hbs => ensures_pure (.cons hb hbs)

theorem ensures_each {p : β → Prop} {step : α → Build β} (h : ∀ a, Ensures values p (step a))
    (l : List α) : Ensures values (fun bs => ∀ b ∈ bs, p b) (Build.each step l) :=
  (Ensures.forall₂_each (p := fun _ => p) h l).imp fun bs hbs => by
    induction hbs with
    | nil => exact List.forall_mem_nil p
    | cons hb _ ih => exact List.forall_mem_cons.2 ⟨hb, ih⟩

/-- The result of a composed computation is the one at the keyword values. -/
theorem Composed.ensures {c : Build α} (hc : c.Composed) :
    Ensures values (· = c.valueAt values) c where
  result s hs := by rw [hc.composes s, hs]
  keywords s hs := by
    rw [hc.composes s]
    exact hs

end Build

theorem Keyword.ensures_pathOf {values : KeywordValues} (k : Keyword) (name : String) :
    Ensures values (· = join (k.textAt values) name) (k.pathOf name) :=
  (k.composed_pathOf name).ensures.imp fun _ hp => hp.trans (k.valueAt_pathOf name values)

namespace Template

variable {values : KeywordValues} {k : Keyword}

theorem ensures_compose (t : Template) : Ensures values (· = t.textAt values) t.compose :=
  t.composed_compose.ensures.imp fun _ h => h.trans (t.valueAt_compose values)

theorem ensures_composeAll (ts : List Template) :
    Ensures values (· = ts.map (textAt · values)) (composeAll ts) :=
  (composed_composeAll ts).ensures.imp fun _ h => h.trans (valueAt_composeAll ts values)

theorem ensures_pathIn (base name : Template) :
    Ensures values (· = join (base.textAt values) (name.textAt values)) (pathIn base name) :=
  (composed_pathIn base name).ensures.imp fun _ h => h.trans (valueAt_pathIn base name values)

theorem ensures_pathsIn (base : Template) (names : List Template) :
    Ensures values (· = names.map fun name => join (base.textAt values) (name.textAt values))
      (pathsIn base names) :=
  (composed_pathsIn base names).ensures.imp fun _ h => h.trans (valueAt_pathsIn base names values)

theorem isFinal_pathOf (h : isAbsolute (k.textAt values) = true) (name : String) :
    Ensures values IsFinal (k.pathOf name) :=
  (k.ensures_pathOf name).imp fun p hp => by
    rw [hp]
    exact isFinal_join h name

theorem isFinal_pathIn (h : isAbsolute (k.textAt values) = true) (name : Template) :
    Ensures values IsFinal (pathIn (.ofKeyword k) name) :=
  (ensures_pathIn _ name).imp fun p hp => by
    rw [hp, textAt_ofKeyword]
    exact isFinal_join h _

theorem isFinal_pathsIn (h : isAbsolute (k.textAt values) = true) (names : List Template) :
    Ensures values (fun ps => ∀ p ∈ ps, IsFinal p) (pathsIn (.ofKeyword k) names) :=
  (ensures_pathsIn _ names).imp fun ps hps p hp => by
    rw [hps, textAt_ofKeyword] at hp
    obtain ⟨name, -, rfl⟩ := List.mem_map.1 hp
    exact isFinal_join h _

/-- The path of a script below an absolute directory. -/
theorem isAbsolute_below (h : isAbsolute (k.textAt values) = true) (text : String) :
    Ensures values (isAbsolute · = true) (below k text).compose :=
  (ensures_compose _).imp fun p hp => by
    have htext : p = k.textAt values ++ (text ++ "") := hp
    rw [isAbsolute] at h ⊢
    cases hdir : (k.textAt values).toList with
    | nil =>
        rw [hdir] at h
        cases h
    | cons c cs =>
        rw [hdir] at h
        rw [htext, String.toList_append, hdir]
        exact h

end Template

/-! ## Paths of edges -/

/-- The paths of an edge are final; of those that its command does not name it is enough that they
are absolute. -/
structure Edge.IsFinal (e : Edge) : Prop where
  inputs : ∀ p ∈ e.inputs, Path.IsFinal p
  outputs : ∀ p ∈ e.outputs, Path.IsFinal p
  implicits : ∀ p ∈ e.implicits, isAbsolute p = true
  regenImplicits : ∀ p ∈ e.regenImplicits, Path.IsFinal p

theorem Edge.IsFinal.bind {e : Edge} (h : e.IsFinal) (name value : String) :
    (e.bind name value).IsFinal := ⟨h.inputs, h.outputs, h.implicits, h.regenImplicits⟩

section Kinds

variable {values : KeywordValues} (hv : values.IsRooted)

include hv

theorem Preprocessing.isFinal_edge (t : Preprocessing) :
    Ensures values Edge.IsFinal t.edge := by
  have hdefines {e : Edge} (he : e.IsFinal) :
      Ensures values Edge.IsFinal (withDefines e t.defines) := by
    unfold withDefines
    split
    · exact ensures_pure he
    · exact (Template.ensures_composeAll _).bind fun _ _ => ensures_pure (he.bind _ _)
  refine t.input.ensures_compose.bind fun input _ => ?_
  refine (t.composed_outputFor input).ensures.bind fun output _ => ?_
  refine (Template.isFinal_pathOf hv.currentInputDir input).bind fun inputPath hinput => ?_
  refine (Template.isFinal_pathOf hv.currentOutputDir output).bind fun outputPath houtput => ?_
  refine (Template.isFinal_pathsIn hv.inputDir _).bind fun implicits himplicits => ?_
  have hdependencies : Path.IsFinal (outputPath ++ dependencySuffix) :=
    houtput.withText (by decide)
  exact hdefines {
    inputs := List.forall_mem_singleton.2 hinput
    outputs := List.forall_mem_cons.2 ⟨houtput, List.forall_mem_singleton.2 hdependencies⟩
    implicits := fun p hp => (himplicits p hp).absolute
    regenImplicits := List.forall_mem_nil _ }

theorem PreprocessingBatch.isFinal_edges (t : PreprocessingBatch) :
    Ensures values (fun es => ∀ e ∈ es, e.IsFinal) t.edges :=
  (Template.ensures_compose _).bind fun _ _ => (Template.ensures_compose _).bind fun _ _ =>
    ensures_each (fun input => input.ensures_compose.bind fun _ _ =>
      Preprocessing.isFinal_edge hv _) t.inputs

theorem FileBatch.isFinal_edges (t : FileBatch) (kind : Target.Kind) :
    Ensures values (fun es => ∀ e ∈ es, e.IsFinal) (t.edges kind) := by
  refine (Template.isFinal_pathIn hv.currentOutputDir _).bind fun outDir hout => ?_
  refine (Template.isFinal_pathIn hv.currentInputDir _).bind fun inDir hin => ?_
  refine ensures_each (fun input => input.ensures_compose.bind fun name _ => ensures_pure ?_) _
  exact {
    inputs := List.forall_mem_singleton.2 (isFinal_join hin.absolute name)
    outputs := List.forall_mem_singleton.2 (isFinal_join hout.absolute name)
    implicits := List.forall_mem_nil _
    regenImplicits := List.forall_mem_nil _ }

theorem FileBatch.isFinal_minifiedEdges (t : FileBatch) :
    Ensures values (fun es => ∀ e ∈ es, e.IsFinal) t.minifiedEdges := by
  refine (t.isFinal_edges hv .minify).bind fun edges hedges => ?_
  refine (Template.isAbsolute_below hv.inputDir _).bind fun script hscript => ensures_pure ?_
  intro e he
  obtain ⟨e', he', rfl⟩ := List.mem_map.1 he
  have h := hedges e' he'
  refine ⟨h.inputs, h.outputs, fun p hp => ?_, h.regenImplicits⟩
  obtain hp | hp := List.mem_append.1 hp
  · exact h.implicits p hp
  · rw [List.mem_singleton.1 hp]
    exact hscript

theorem Conversion.isFinal_edge (t : Conversion) (kind : Target.Kind) :
    Ensures values Edge.IsFinal (t.edge kind) := by
  refine (Template.isFinal_pathIn hv.currentInputDir _).bind fun input hinput => ?_
  refine (Template.isFinal_pathIn hv.currentOutputDir _).bind fun output houtput => ?_
  refine (Template.composed_composeWords _).ensures.bind fun args _ => ensures_pure ?_
  exact Edge.IsFinal.bind {
    inputs := List.forall_mem_singleton.2 hinput
    outputs := List.forall_mem_singleton.2 houtput
    implicits := List.forall_mem_nil _
    regenImplicits := List.forall_mem_nil _ } _ _

theorem Archive.isFinal_edge (t : Archive) : Ensures values Edge.IsFinal t.edge := by
  refine (Template.isFinal_pathIn hv.currentInputDir _).bind fun inDir hin => ?_
  refine (Template.ensures_composeAll _).bind fun names _ => ?_
  refine (Template.isFinal_pathIn hv.currentOutputDir _).bind fun output houtput => ?_
  refine (Template.isAbsolute_below hv.inputDir _).bind fun script hscript => ensures_pure ?_
  exact Edge.IsFinal.bind {
    inputs := List.forall_mem_map.2 fun name _ => isFinal_join hin.absolute name
    outputs := List.forall_mem_singleton.2 houtput
    implicits := fun p hp => by
      rw [List.mem_singleton.1 hp]
      exact hscript
    regenImplicits := List.forall_mem_nil _ } _ _

theorem Regeneration.isFinal_edge (t : Regeneration) : Ensures values Edge.IsFinal t.edge := by
  have houtputs : Ensures values (fun ps => ∀ p ∈ ps, Path.IsFinal p) t.outputPaths := by
    unfold outputPaths
    split
    · exact Template.isFinal_pathsIn hv.currentOutputDir _
    · exact (Template.isFinal_pathOf hv.outputDir _).bind fun _ h =>
        ensures_pure (List.forall_mem_singleton.2 h)
  refine (Template.isFinal_pathsIn hv.currentInputDir _).bind fun inputs hinputs => ?_
  refine houtputs.bind fun outputs houtputs => ?_
  refine (Template.isFinal_pathsIn hv.currentInputDir _).bind fun implicits himplicits => ?_
  exact ensures_pure {
    inputs := hinputs
    outputs := houtputs
    implicits := fun p hp => (himplicits p hp).absolute
    regenImplicits := List.forall_mem_nil _ }

/-- A deployment has an edge with final paths and its alias for the output of this. -/
theorem Deployment.isFinal_edges (t : Deployment) {s : Session} (hs : s.keywords = values) :
    ∀ e ∈ (t.edges.run s).1,
      e.IsFinal ∨ ∃ timestamp, Path.IsFinal timestamp ∧ e = t.aliasEdge timestamp := by
  have hconfig : Path.IsFinal (t.configPath s.keywords) :=
    (Template.isFinal_pathIn hv.currentInputDir t.config).result { keywords := s.keywords } hs
  have hsrc : Path.IsFinal (t.sourcePath s.keywords) :=
    (Template.isFinal_pathIn hv.currentOutputDir t.srcDir).result { keywords := s.keywords } hs
  have htimestamp : Path.IsFinal (withSuffix (t.sourcePath s.keywords) timestampSuffix) :=
    (isFinal_normal hsrc.absolute).withText (by decide)
  rw [t.edges_eq]
  split
  · exact List.forall_mem_nil _
  · split
    · exact List.forall_mem_nil _
    · refine List.forall_mem_cons.2 ⟨.inl ?_, List.forall_mem_singleton.2
        (.inr ⟨_, htimestamp, rfl⟩)⟩
      exact {
        inputs := List.forall_mem_map.2 fun name _ => isFinal_join hsrc.absolute name
        outputs := List.forall_mem_singleton.2 htimestamp
        implicits := List.forall_mem_nil _
        regenImplicits := List.forall_mem_singleton.2 hconfig }

/-- Every kind of target but a deployment and what is taken as it is has edges with final paths. -/
theorem Target.isFinal_edges {t : Target} (hcore : t.kind ≠ .core) (hrsync : t.kind ≠ .rsync) :
    Ensures values (fun es => ∀ e ∈ es, e.IsFinal) t.edges := by
  have one {c : Build Edge} (hc : Ensures values Edge.IsFinal c) :
      Ensures values (fun es => ∀ e ∈ es, e.IsFinal) (c >>= fun edge => pure [edge]) :=
    hc.bind fun edge h => ensures_pure (List.forall_mem_singleton.2 h)
  cases t with
  | cpp t => exact one (t.isFinal_edge hv)
  | cpps t => exact t.isFinal_edges hv
  | copy t => exact t.isFinal_edges hv .copy
  | magick t => exact one (t.isFinal_edge hv .magick)
  | rsvgConvert t => exact one (t.isFinal_edge hv .rsvgConvert)
  | minify t => exact t.isFinal_minifiedEdges hv
  | zip t => exact one (t.isFinal_edge hv)
  | regen t => exact one (t.isFinal_edge hv)
  | rsync => exact absurd rfl hrsync
  | core => exact absurd rfl hcore

end Kinds

/-- In a run from an absolute working directory the inputs and outputs of every edge of a target
have final paths, whatever the target says, and so have the files that make the build file out of
date; what an edge waits for besides has absolute paths.  The one exception is the output of the
alias of a deployment, which is the name of the deployment.  An edge that is taken as it is may
have any paths. -/
theorem Target.final_paths {cwd file command : String} {tools : Toolset} {s : Session}
    (hs : s.keywords = Session.invocationKeywords cwd file command tools)
    (hcwd : isAbsolute cwd = true) {t : Target} (ht : t.kind ≠ .core) :
    ∀ e ∈ (t.edges.run s).1,
      (∀ p ∈ e.inputs ++ e.regenImplicits, Path.IsFinal p)
        ∧ (∀ p ∈ e.implicits, isAbsolute p = true)
        ∧ ((∀ p ∈ e.outputs, Path.IsFinal p)
          ∨ ∃ u : Deployment, t = .rsync u ∧ e.rule = Rule.aliasName ∧ e.outputs = [u.name]) := by
  have hv := Session.isRooted_invocationKeywords hcwd file command tools
  intro e he
  have hfinal (h : e.IsFinal) := And.intro
    (List.forall_mem_append.2 ⟨h.inputs, h.regenImplicits⟩) (And.intro h.implicits h.outputs)
  by_cases hrsync : t.kind = .rsync
  · obtain ⟨u, rfl⟩ : ∃ u, t = .rsync u := by
      cases t with
      | rsync u => exact ⟨u, rfl⟩
      | _ => cases hrsync
    obtain h | ⟨timestamp, htimestamp, rfl⟩ := u.isFinal_edges hv hs e he
    · obtain ⟨hinputs, himplicits, houtputs⟩ := hfinal h
      exact ⟨hinputs, himplicits, .inl houtputs⟩
    · exact ⟨List.forall_mem_singleton.2 htimestamp, List.forall_mem_nil _, .inr ⟨u, rfl, rfl, rfl⟩⟩
  · obtain ⟨hinputs, himplicits, houtputs⟩ :=
      hfinal ((isFinal_edges hv ht hrsync).result s hs e he)
    exact ⟨hinputs, himplicits, .inl houtputs⟩

/-- A description above the working directory, a name that is missing, paths of dots, and a
deployment whose directory is the root. -/
theorem Target.final_paths_of_dots :
    let cwd := "/site//./a/"
    let zip : Target := .zip {
      inputs := [.composed [.unknown "X"], .literal "../b//./c/"]
      output := .literal "../../.." }
    let deployment : Deployment := {
      name := "deploy"
      inputs := ["a", "./b"]
      srcDir := .literal "../../../.."
      config := .literal "../d.json"
      dstDir := .literal "host:/srv" }
    let s := Session.ofInvocation cwd "../../HAGA.lua" "/usr/bin/haga" {} {}
    (isAbsolute cwd = true ∧ zip.kind ≠ .core ∧ (Target.rsync deployment).kind ≠ .core)
      ∧ (zip.edges.run s).1.map (fun e => (e.inputs, e.implicits, e.outputs))
        = [(["/", "/b/c"], ["/site//./a//toolchain/zip-abs.sh"], ["/"])]
      ∧ (∀ e ∈ (zip.edges.run s).1, ∀ p ∈ e.inputs ++ e.regenImplicits, Path.IsFinal p)
      ∧ ∃ sync rest, ((Target.rsync deployment).edges.run s).1 = sync :: rest
        ∧ sync.inputs = ["/a", "/b"] ∧ sync.outputs = ["/.timestamp"]
        ∧ sync.regenImplicits = ["/d.json"] ∧ ∀ p ∈ sync.outputs, Path.IsFinal p := by
  intro cwd zip deployment s
  have hcwd : isAbsolute cwd = true := by decide
  have hzip : zip.kind ≠ .core := by decide
  have hrsync : (Target.rsync deployment).kind ≠ .core := by decide
  have hconfig : deployment.configPath s.keywords = "/d.json" := by decide +kernel
  have hsrc : deployment.sourcePath s.keywords = "/" := by decide +kernel
  have hpieces : pieces "/d.json" = [""] ++ ["d.json"] := by decide +kernel
  have hvacant : s.files.Vacant "/d.json" ["d.json"] false :=
    Files.vacant_of_pieces rfl hpieces (by decide) (by decide) (by decide +kernel) rfl rfl
  have hshort : ¬Files.maxPath
      ≤ (s.files.draftPath (directoryOf "/d.json")).utf8ByteSize := by decide +kernel
  have hfound : deployment.destination s = .ok (.written "host:/srv") := by
    rw [Deployment.destination, hconfig, show deployment.dstDir.compose = pure "host:/srv" from rfl,
      Deploy.Destination.obtain_of_vacant hvacant, if_neg hshort]
    rfl
  obtain ⟨sync, rest, hedges⟩ : ∃ sync rest, (deployment.edges.run s).1 = sync :: rest := by
    rw [Deployment.edges_eq, hfound]
    exact ⟨_, _, rfl⟩
  obtain ⟨destination, hdestination, -, -, rfl⟩ := deployment.edges_eq_cons hedges
  obtain rfl := Except.ok.inj (hfound.symm.trans hdestination)
  rw [hconfig, hsrc] at hedges
  refine ⟨⟨hcwd, hzip, hrsync⟩, by decide +kernel, fun e he => (final_paths rfl hcwd hzip e he).1,
    _, rest, hedges, by decide +kernel, by decide +kernel, by decide +kernel, ?_⟩
  obtain ⟨-, -, houtputs | ⟨u, hu, halias, -⟩⟩ :=
    final_paths rfl hcwd hrsync _ (hedges ▸ List.mem_cons_self)
  · exact houtputs
  · exact absurd halias (by decide +kernel)

end BuildGraph
