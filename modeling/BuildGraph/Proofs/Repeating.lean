import BuildGraph.Proofs.DeployCommand
import BuildGraph.Proofs.Requiring
import BuildGraph.Proofs.RuleNames

/-!
# Generating again

A generation changes the files it reads: a deployment whose config is missing writes one, and from
then on reads it.  Nothing else is written, errors are only added, and what was read stays as it
was.  So a generation without errors can be repeated in the files that it leaves, with the same
outcome, provided that the configs it wrote can be read (`Generated.ofFile_again_iff`).

The proof is by the structure of the computation.  A computation repeats itself (`Build.Repeats`)
if a second run, in the files that a first run without errors leaves or in more, does the same if
the configs of the first run can be read, and records an error otherwise.  Sequences of such
computations are such again, and so is a deployment, whose second run takes the other branch.
-/

namespace BuildGraph

open Build Deploy

/-! ## Added configs -/

/-- What lies in files and not in others is a config, and its destination is read back. -/
def Files.AddsReadable (fs more : Files) : Prop :=
  ∀ l e, fs.lookup l = none → more.lookup l = some e →
    ∃ dst, e = Config.entry dst ∧ Config.ReadsBack dst

namespace Files.AddsReadable

variable {fs mid more : Files}

theorem refl (fs : Files) : fs.AddsReadable fs := Adds.refl _ fs

/-- What is added in two steps is what is added in each. -/
theorem trans_iff (h : fs.Extends mid) (h' : mid.Extends more) :
    fs.AddsReadable more ↔ fs.AddsReadable mid ∧ mid.AddsReadable more := by
  constructor
  · exact fun hadds => ⟨fun l e hnone hl => hadds l e hnone (h'.lookup_eq hl),
      fun l e hnone hl => hadds l e (h.lookup_eq_none hnone) hl⟩
  · rintro ⟨hfirst, hsecond⟩
    exact Adds.trans hfirst hsecond h'

/-- A config that is added must be one that is read back. -/
theorem insert_iff {l : Location} (h : fs.lookup l = none) (dst : String) :
    fs.AddsReadable (fs.insert l (Config.entry dst)) ↔ Config.ReadsBack dst := by
  constructor
  · intro hadds
    have hl : l ≠ [] := by
      rintro rfl
      rw [lookup_root] at h
      cases h
    obtain ⟨dst', hentry, hback⟩ := hadds l _ h (lookup_insert_self fs _ hl)
    exact .of_entry_eq hentry hback
  · intro hback
    exact Adds.insert ⟨dst, rfl, hback⟩

end Files.AddsReadable

/-! ## Repeated computations -/

namespace Build

variable {α β : Type}

/-- Errors are only added and files only grow.  In the files that a run without errors leaves, or
in more, the computation does the same if what the run added can be read, and otherwise it records
an error. -/
structure Repeats (c : Build α) : Prop where
  errors (s : Session) : s.errors <+: (c.run s).2.errors
  files (s : Session) : s.files.Extends (c.run s).2.files
  again (s : Session) (more : Files) (hmore : (c.run s).2.files.Extends more)
    (hs : (c.run s).2.errors = []) :
    (s.files.AddsReadable (c.run s).2.files
      ∧ c.run { s with files := more } = ((c.run s).1, { (c.run s).2 with files := more }))
    ∨ (¬s.files.AddsReadable (c.run s).2.files
      ∧ (c.run { s with files := more }).2.errors ≠ [])

/-- No error was recorded before if none was in the end. -/
theorem errors_eq_nil_of_prefix {s s' : Session} (h : s.errors <+: s'.errors)
    (hs : s'.errors = []) : s.errors = [] := by
  rw [hs] at h
  exact List.prefix_nil.1 h

theorem Repeats.bind {c : Build α} {f : α → Build β} (hc : Repeats c)
    (hf : ∀ a, Repeats (f a)) : Repeats (c >>= f) where
  errors s := (hc.errors s).trans ((hf _).errors _)
  files s := (hc.files s).trans ((hf _).files _)
  again s more hmore hs := by
    rw [run_bind] at hmore hs ⊢
    have hrest := (hf (c.run s).1).files (c.run s).2
    have hadds := Files.AddsReadable.trans_iff (hc.files s) hrest
    have herrors := errors_eq_nil_of_prefix ((hf _).errors _) hs
    -- The second run of `c` sees what `f` added as well, which it may, as `more` is arbitrary.
    obtain ⟨hfirst, hrun⟩ | ⟨hfirst, hfail⟩ := hc.again s more (hrest.trans hmore) herrors
    · rw [run_bind, hrun]
      obtain ⟨hsecond, hrun⟩ | ⟨hsecond, hfail⟩ := (hf _).again (c.run s).2 more hmore hs
      · exact .inl ⟨hadds.2 ⟨hfirst, hsecond⟩, hrun⟩
      · exact .inr ⟨fun h => hsecond (hadds.1 h).2, hfail⟩
    · refine .inr ⟨fun h => hfirst (hadds.1 h).1, fun hnil => hfail ?_⟩
      exact errors_eq_nil_of_prefix ((hf _).errors _) hnil

/-- A computation repeats itself if it leaves the files as they are and does not depend on them. -/
theorem repeats_of_run {c : Build α} (herrors : ∀ s : Session, s.errors <+: (c.run s).2.errors)
    (hfiles : ∀ s : Session, (c.run s).2.files = s.files)
    (hrun : ∀ (s : Session) (more : Files),
      c.run { s with files := more } = ((c.run s).1, { (c.run s).2 with files := more })) :
    Repeats c where
  errors := herrors
  files s := by
    rw [hfiles]
    exact .refl s.files
  again s more _ _ := by
    refine .inl ⟨?_, hrun s more⟩
    rw [hfiles]
    exact .refl s.files

theorem repeats_pure (a : α) : Repeats (pure a : Build α) :=
  repeats_of_run (fun _ => List.prefix_rfl) (fun _ => rfl) fun _ _ => rfl

theorem Composed.repeats {c : Build α} (hc : c.Composed) : Repeats c := by
  refine repeats_of_run (fun s => ?_) (fun s => ?_) fun s more => ?_
  · rw [hc.composes s]
    exact List.prefix_append _ _
  · rw [hc.composes s]
    rfl
  · rw [hc.composes, hc.composes s]
    rfl

theorem repeats_modify {f : Session → Session} (herrors : ∀ s, s.errors <+: (f s).errors)
    (hfiles : ∀ s, (f s).files = s.files)
    (hf : ∀ (s : Session) (more : Files), f { s with files := more } = { f s with files := more }) :
    Repeats (modify f : Build PUnit) :=
  repeats_of_run herrors hfiles fun s more => congrArg (Prod.mk PUnit.unit) (hf s more)

/-- The files of a session may be looked at as long as nothing depends on them. -/
theorem repeats_get_bind {f : Session → Build β} (hf : ∀ s, Repeats (f s))
    (hfiles : ∀ (s : Session) (more : Files), f { s with files := more } = f s) :
    Repeats ((get : Build Session) >>= f) where
  errors s := (hf s).errors s
  files s := (hf s).files s
  again s more hmore hs := by
    have hrun (s : Session) : ((get : Build Session) >>= f).run s = (f s).run s := rfl
    rw [hrun] at hmore hs
    rw [hrun, hrun, hfiles s more]
    exact (hf s).again s more hmore hs

theorem repeats_each {step : α → Build β} (h : ∀ a, Repeats (step a)) (l : List α) :
    Repeats (Build.each step l) := by
  induction l with
  | nil => exact repeats_pure []
  | cons a l ih => exact (h a).bind fun b => ih.bind fun bs => repeats_pure (b :: bs)

end Build

/-! ## Destinations -/

namespace Deploy.Destination

variable {β : Type}

variable {p : String} {template : Build String}

/-- A destination cannot be had, or it is read, also later on, or it is written and later read. -/
theorem obtain_cases (h : template.Composes) (s : Session) :
    (∃ e ps, (obtain p template).run s = (.error e, s.addErrors ps))
    ∨ (∃ dst, (obtain p template).run s = (.ok (.found dst), s)
      ∧ ∀ s' : Session, s.files.Extends s'.files →
        (obtain p template).run s' = (.ok (.found dst), s'))
    ∨ ∃ dst ps l, s.files.lookup l = none
      ∧ (obtain p template).run s = (.ok (.written dst),
        { s.addErrors ps with files := s.files.insert l (Config.entry dst) })
      ∧ ∀ s' : Session, (s.files.insert l (Config.entry dst)).Extends s'.files →
        (obtain p template).run s'
          = (if Config.ReadsBack dst then .ok (.found dst) else .error (.parse p), s') := by
  cases hexists : s.files.pathExists p with
  | true =>
      obtain ⟨e, hstat⟩ := Files.pathExists_iff.1 hexists
      have hrun := obtain_of_pathExists hexists template
      cases hread : Config.read s.files p with
      | error e =>
          rw [hread] at hrun
          exact .inl ⟨e, [], by rw [hrun, Session.addErrors_nil]; rfl⟩
      | ok dst =>
          rw [hread] at hrun
          refine .inr (.inl ⟨dst, hrun, fun s' hmore => ?_⟩)
          have hread' : Config.read s'.files p = .ok dst := by
            rw [← hread, Config.read, Config.read, hmore.readText_eq hstat]
          rw [obtain_of_pathExists (hmore.pathExists_eq hexists), hread']
          rfl
  | false =>
      have hrun := obtain_of_not_pathExists hexists h
      cases hcreate : Config.create s.files p (template.valueAt s.keywords) with
      | error e =>
          rw [hcreate] at hrun
          exact .inl ⟨e, _, hrun⟩
      | ok files =>
          rw [hcreate] at hrun
          obtain ⟨l, hvacant, rfl⟩ := Config.exists_vacant_of_create hcreate
          refine .inr (.inr ⟨_, _, l, hvacant.lookup_eq_none, hrun, fun s' hmore => ?_⟩)
          exact obtain_of_stat (hmore.stat_eq (hvacant.stat_insert (Config.entry_ne_link _))) _

/-- A deployment repeats itself: where a config is written first, it is read later, and nothing
that follows tells the two apart. -/
theorem repeats_obtain_bind (htemplate : template.Composes)
    {f : Except Config.Error Destination → Build β} (hf : ∀ r, Repeats (f r))
    (herror : ∀ e s, ((f (.error e)).run s).2.errors ≠ [])
    (hdst : ∀ dst, f (.ok (.written dst)) = f (.ok (.found dst))) :
    Repeats (obtain p template >>= f) where
  errors s := by
    rw [run_bind]
    refine List.IsPrefix.trans ?_ ((hf _).errors _)
    obtain ⟨e, ps, hrun⟩ | ⟨dst, hrun, -⟩ | ⟨dst, ps, l, -, hrun, -⟩ := obtain_cases htemplate s
    · rw [hrun]
      exact List.prefix_append _ _
    · exact hrun ▸ List.prefix_rfl
    · rw [hrun]
      exact List.prefix_append _ _
  files s := by
    rw [run_bind]
    refine Files.Extends.trans ?_ ((hf _).files _)
    obtain ⟨e, ps, hrun⟩ | ⟨dst, hrun, -⟩ | ⟨dst, ps, l, hl, hrun, -⟩ := obtain_cases htemplate s
    · rw [hrun]
      exact .refl s.files
    · rw [hrun]
      exact .refl s.files
    · rw [hrun]
      exact .of_insert hl _
  again s more hmore hs := by
    rw [run_bind] at hmore hs
    rw [run_bind, run_bind]
    have hrest := (hf ((obtain p template).run s).1).files ((obtain p template).run s).2
    obtain ⟨e, ps, hrun⟩ | ⟨dst, hrun, hfound⟩ | ⟨dst, ps, l, hl, hrun, hwritten⟩ :=
      obtain_cases htemplate s
    · rw [hrun] at hs
      exact absurd hs (herror e _)
    · rw [hrun] at hmore hs hrest ⊢
      rw [hfound { s with files := more } (hrest.trans hmore)]
      exact (hf _).again s more hmore hs
    · rw [hrun] at hmore hs hrest ⊢
      obtain rfl : ps = [] := by
        have hnil := errors_eq_nil_of_prefix ((hf _).errors _) hs
        exact (List.append_eq_nil_iff.1 hnil).2
      rw [Session.addErrors_nil] at hmore hs hrest ⊢
      have hadds := Files.AddsReadable.trans_iff (.of_insert hl (Config.entry dst)) hrest
      rw [hadds, Files.AddsReadable.insert_iff hl,
        hwritten { s with files := more } (hrest.trans hmore)]
      by_cases hback : Config.ReadsBack dst
      · rw [if_pos hback, ← hdst]
        obtain ⟨hsecond, hagain⟩ | ⟨hsecond, hfail⟩ := (hf _).again
          { s with files := s.files.insert l (Config.entry dst) } more hmore hs
        · exact .inl ⟨⟨hback, hsecond⟩, hagain⟩
        · exact .inr ⟨fun h => hsecond h.2, hfail⟩
      · rw [if_neg hback]
        exact .inr ⟨fun h => hback h.1, herror _ _⟩

end Deploy.Destination

/-! ## Targets -/

theorem Session.repeats_addWarnings (ps : List Problem) :
    Repeats (modify (·.addWarnings ps) : Build PUnit) :=
  repeats_modify (fun _ => List.prefix_rfl) (fun _ => rfl) fun _ _ => rfl

theorem Session.repeats_addError (p : Problem) : Repeats (modify (·.addError p) : Build PUnit) :=
  repeats_modify (fun _ => List.prefix_append _ _) (fun _ => rfl) fun _ _ => rfl

theorem Deployment.repeats_edges (t : Deployment) : Repeats t.edges := by
  refine (Template.composed_pathIn _ _).repeats.bind fun config => ?_
  refine Destination.repeats_obtain_bind (Template.composed_compose _).composes (fun r => ?_)
    (fun e s => ?_) fun dst => rfl
  · refine (Session.repeats_addWarnings _).bind fun _ => ?_
    cases r with
    | error e => exact (Session.repeats_addError _).bind fun _ => repeats_pure []
    | ok destination =>
        simp only
        split
        · exact repeats_pure []
        · exact (Template.composed_pathIn _ _).repeats.bind fun _ =>
            (Template.composed_pathWithSuffix _ _).repeats.bind fun _ => repeats_pure _
  · exact List.append_ne_nil_of_right_ne_nil _ (List.cons_ne_nil _ _)

theorem Target.repeats_edges (t : Target) : Repeats t.edges := by
  obtain hcomposed | ⟨u, rfl⟩ := t.composed_or_rsync
  · exact hcomposed.repeats
  · exact u.repeats_edges

/-! ## Rules -/

/-- Registering a rule has nothing to do with files. -/
theorem Session.repeats_register (rule : Rule) :
    Repeats (modify (·.register rule) : Build PUnit) := by
  refine repeats_modify (fun s => ?_) (fun s => ?_) fun s more => ?_
  · unfold register
    rcases s.rules.register rule with ⟨_ | _ | _, rules⟩
    · exact List.prefix_rfl
    · exact List.prefix_rfl
    · exact List.prefix_append _ _
  · unfold register
    rcases s.rules.register rule with ⟨_ | _ | _, rules⟩ <;> rfl
  · unfold register
    simp only
    rcases s.rules.register rule with ⟨_ | _ | _, rules⟩ <;> rfl

theorem RuleTemplate.repeats_register (r : RuleTemplate) : Repeats r.register :=
  r.composed_compose.repeats.bind fun _ => Session.repeats_register _

theorem Target.Kind.repeats_registerBuiltin (k : Kind) : Repeats k.registerBuiltin := by
  refine k.registerBuiltin_induction (repeats_pure ()) ?_ RuleTemplate.repeats_register
  intro name c hc
  refine repeats_get_bind (fun s => ?_) fun s more => rfl
  split
  · exact repeats_pure ()
  · exact hc

/-! ## Descriptions -/

namespace Description

/-- The outline in the session that the targets leave. -/
theorem run_outline {d : Description} {s s' : Session} {edges : List (List Edge)}
    (h : (Build.each Target.edges d.targets).run (d.registerRules.run s).2 = (edges, s')) :
    d.outline.run s = ({ rules := s'.rules.rules, edges := edges.flatten }, s') := by
  unfold outline
  rw [run_bind, run_bind, h]
  rfl

theorem repeats_registerRules (d : Description) : Repeats d.registerRules :=
  (repeats_each RuleTemplate.repeats_register d.rules).bind fun _ =>
    (repeats_each (fun t : Target => t.kind.repeats_registerBuiltin) d.targets).bind
      fun _ => repeats_pure ()

theorem repeats_outline (d : Description) : Repeats d.outline :=
  d.repeats_registerRules.bind fun _ => (repeats_each Target.repeats_edges d.targets).bind
    fun _ => repeats_get_bind (fun _ => repeats_pure _) fun _ _ => rfl

theorem repeats_withRegeneration (outline : Graph) : Repeats (withRegeneration outline) := by
  refine repeats_get_bind (fun s => ?_) fun s more => rfl
  split
  · exact repeats_pure outline
  · exact (Target.Kind.repeats_registerBuiltin .regen).bind fun _ =>
      (Regeneration.composed_edge {}).repeats.bind fun _ =>
        repeats_get_bind (fun _ => repeats_pure _) fun _ _ => rfl

/-- A description repeats itself. -/
theorem repeats_graph (d : Description) : Repeats d.graph :=
  d.repeats_outline.bind fun _ => (repeats_withRegeneration _).bind fun _ =>
    (Session.repeats_addWarnings _).bind fun _ => repeats_pure _

end Description

/-! ## Generations -/

namespace Generated

variable {fs : Files} {modulePath cwd file command : String} {tools : Toolset} {g : Generated}

/-- What a run leaves, without the session. -/
def ofRun (r : Graph × Session) : Generated where
  graph := r.1
  report := { errors := r.2.errors, warnings := r.2.warnings }
  files := r.2.files

theorem ofFile_of_load {d : Description}
    (h : Description.load fs modulePath (Path.append cwd file) = .ok d) :
    ofFile fs modulePath cwd file command tools
      = .ok (ofRun (d.graph.run (Session.ofInvocation cwd file command tools fs))) := by
  unfold ofFile
  rw [h]
  rfl

theorem exists_load_of_ofFile (h : ofFile fs modulePath cwd file command tools = .ok g) :
    ∃ d, Description.load fs modulePath (Path.append cwd file) = .ok d := by
  cases hload : Description.load fs modulePath (Path.append cwd file) with
  | ok d => exact ⟨d, rfl⟩
  | error e =>
      unfold ofFile at h
      rw [hload] at h
      cases h

/-- A generation without errors has an outcome and leaves the files of its last session. -/
theorem exists_ofFile {d : Description}
    (hload : Description.load fs modulePath (Path.append cwd file) = .ok d)
    (herrors : (d.graph.run (Session.ofInvocation cwd file command tools fs)).2.errors = []) :
    ∃ g, ofFile fs modulePath cwd file command tools = .ok g ∧ g.report.succeeded = true
      ∧ g.files = (d.graph.run (Session.ofInvocation cwd file command tools fs)).2.files :=
  ⟨_, ofFile_of_load hload, List.isEmpty_iff.2 herrors, rfl⟩

/-- A generation without errors, from a description that requires no other file, can be repeated
in the files that it leaves exactly if the configs that it added can be read. -/
theorem ofFile_again_iff (hfirst : ofFile fs modulePath cwd file command tools = .ok g)
    (hsucceeded : g.report.succeeded = true)
    (halone : Description.StandsAlone fs modulePath (Path.append cwd file)) :
    ofFile g.files modulePath cwd file command tools = .ok g ↔ fs.AddsReadable g.files := by
  obtain ⟨d, hload⟩ := exists_load_of_ofFile hfirst
  rw [ofFile_of_load hload] at hfirst
  obtain rfl := Except.ok.inj hfirst
  let s := Session.ofInvocation cwd file command tools fs
  have hgrows : fs.Extends (ofRun (d.graph.run s)).files := d.repeats_graph.files s
  have herrors : (d.graph.run s).2.errors = [] := List.isEmpty_iff.1 hsucceeded
  rw [ofFile_of_load ((Description.load_of_standsAlone halone hgrows).trans hload)]
  obtain ⟨hadds, hrun⟩ | ⟨hadds, hfail⟩ := d.repeats_graph.again s _ (.refl _) herrors
  · exact iff_of_true (congrArg (fun r => Except.ok (ofRun r)) hrun) hadds
  · refine iff_of_false (fun hsame => hfail ?_) hadds
    have herrors' := congrArg (fun g => g.report.errors) (Except.ok.inj hsame)
    exact herrors'.trans herrors

end Generated

/-- A description in the file `H` of the root, which lies there alone. -/
theorem Description.load_alone {modulePath text : String} {d : Description}
    (hd : ((Script.evaluate {} modulePath "/" text).bind ofValue).toOption = some d) :
    let fs := ({} : Files).insert ["H"] (.file text.toUTF8 false)
    load fs modulePath "/H" = .ok d ∧ StandsAlone fs modulePath "/H" := by
  intro fs
  have hpieces : Path.pieces "/H" = [""] ++ ["H"] := by decide +kernel
  have hfree : ({} : Files).Vacant "/H" ["H"] false :=
    Files.vacant_of_pieces rfl hpieces (by decide) (by decide) (by decide +kernel) rfl rfl
  have hlink (target : String) : Entry.file text.toUTF8 false ≠ .link target := Entry.noConfusion
  have hcanonical : fs.canonicalize "/H" = .ok (Location.path ["H"]) :=
    hfree.canonicalize_insert hlink (by decide +kernel)
  have hpath : Location.path ["H"] = "/H" := by decide +kernel
  have hparent : (Path.parent? "/H").getD "" = "/" := by decide +kernel
  rw [hpath] at hcanonical
  rw [← hparent] at hd
  exact load_of_text hcanonical (Files.readText_of_stat (hfree.stat_insert hlink)) hd

namespace Generated

/-- A destination with a separator is written by the first generation, and the second, which cannot
read it, has another outcome. -/
theorem ofFile_again_iff_of_separator :
    let text := "return\x7btargets=\x7b\x7btype=\"rsync\",name=\"d\",inputs=\x7b\x7d,"
      ++ "src_dir=\"s\",config=\"c\",dst_dir=\"\u2028\"\x7d\x7d\x7d"
    let fs := ({} : Files).insert ["H"] (.file text.toUTF8 false)
    ∃ g, ofFile fs "" "/" "H" "h" {} = .ok g ∧ g.report.succeeded = true
      ∧ Description.StandsAlone fs "" (Path.append "/" "H")
      ∧ g.files = fs.insert ["c"] (Config.entry "\u2028")
      ∧ ofFile g.files "" "/" "H" "h" {} ≠ .ok g := by
  intro text fs
  let t : Deployment := {
    name := "d"
    inputs := []
    srcDir := .literal "s"
    config := .literal "c"
    dstDir := .literal "\u2028" }
  let d : Description := { targets := [.rsync t] }
  obtain ⟨hload, halone⟩ : Description.load fs "" (Path.append "/" "H") = .ok d
      ∧ Description.StandsAlone fs "" (Path.append "/" "H") := by
    have hpath : Path.append "/" "H" = "/H" := by decide +kernel
    rw [hpath]
    exact Description.load_alone (by decide +kernel)
  let s := Session.ofInvocation "/" "H" "h" {} fs
  let s' := (d.registerRules.run s).2
  have hconfig : t.configPath s'.keywords = "/c" := by decide +kernel
  have hpieces : Path.pieces "/c" = [""] ++ ["c"] := by decide +kernel
  have hvacant : s'.files.Vacant (t.configPath s'.keywords) ["c"] false := by
    rw [hconfig]
    exact Files.vacant_of_pieces rfl hpieces (by decide) (by decide) (by decide +kernel) rfl rfl
  obtain ⟨edges, hedges⟩ := Deployment.exists_run_edges_of_vacant (t := t) (s := s') rfl rfl
    hvacant (by decide +kernel) (by decide +kernel) (by decide +kernel)
  have heach : (Build.each Target.edges d.targets).run s' = ([edges],
      { s' with files := fs.insert ["c"] (Config.entry "\u2028") }) := by
    rw [Build.each, run_bind, Target.edges_rsync, hedges]
    rfl
  have hrun : (d.graph.run s).2.errors = []
      ∧ (d.graph.run s).2.files = fs.insert ["c"] (Config.entry "\u2028") := by
    unfold Description.graph
    rw [run_bind, Description.run_outline heach]
    exact ⟨rfl, rfl⟩
  obtain ⟨herrors, hfiles⟩ := hrun
  obtain ⟨g, hfirst, hsucceeded, hleft⟩ := exists_ofFile hload herrors
  rw [hfiles] at hleft
  refine ⟨g, hfirst, hsucceeded, halone, hleft, fun hagain => ?_⟩
  have hadds := (ofFile_again_iff hfirst hsucceeded halone).1 hagain
  rw [hleft, Files.AddsReadable.insert_iff rfl] at hadds
  exact absurd hadds (by decide)

end Generated

end BuildGraph
