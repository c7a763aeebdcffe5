import BuildGraph.Proofs.DeployCommand

/-!
# Outcomes of deployments

Two things can go wrong with a deployment: its config cannot be used, or a file of its whitelist
cannot be named in its command.  Each is recorded whether or not the other is there as well, and
with either of them there are no edges.  The config may be written even so, since the whitelist is
screened after it.

All of this is read off the run of a deployment (`Deployment.run_edges`).  Names that are missing in
a path or in the destination are recorded on the way, but these are errors of another kind
(`Build.Composed.filter_problemsAt`).  The destination of the description has a part in the run only
where nothing lies at the path of the config (`Deployment.run_edges_of_pathExists`).
-/

namespace BuildGraph

open Build

/-! ## What is recorded -/

/-- Whether a problem is a config that cannot be used. -/
def Problem.isUnusableConfig : Problem → Bool
  | .unusableConfig _ _ _ => true
  | _ => false

/-- A composed computation records missing names only. -/
theorem Build.Composed.filter_problemsAt {α : Type} {c : Build α} (hc : c.Composed)
    (values : KeywordValues) : (c.problemsAt values).filter Problem.isUnusableConfig = [] := by
  have hmissing (s : Session) (name : String) :
      (s.addError (.missingKeyword name)).errors.filter Problem.isUnusableConfig
        = s.errors.filter Problem.isUnusableConfig := by
    rw [Session.addError, List.filter_append]
    exact List.append_nil _
  have hkeeps : Keeps (fun s => s.errors.filter Problem.isUnusableConfig) c := hc.keeps hmissing
  exact hkeeps { keywords := values }

namespace Deploy

theorem Config.path_of_read {fs : Files} {path : String} {e : Config.Error}
    (h : Config.read fs path = .error e) : e.path = path := by
  rw [read] at h
  split at h
  · obtain rfl := Except.error.inj h
    rfl
  · rw [parse] at h
    split at h
    · obtain rfl := Except.error.inj h
      rfl
    · next doc _ =>
        cases hdoc : destinationOf doc with
        | error fault =>
            rw [hdoc] at h
            obtain rfl := Except.error.inj h
            rfl
        | ok dst =>
            rw [hdoc] at h
            cases h

theorem Config.path_of_create {fs : Files} {path dst : String} {e : Config.Error}
    (h : Config.create fs path dst = .error e) : e.path = path := by
  rw [create] at h
  cases hwrite : fs.writeNew path (text dst) with
  | error cause =>
      rw [hwrite] at h
      obtain rfl := Except.error.inj h
      rfl
  | ok files =>
      rw [hwrite] at h
      cases h

/-- What is wrong with a config is said of its path. -/
theorem Destination.path_of_obtain {p : String} {template : Build String}
    (h : template.Composes) {s : Session} {e : Config.Error}
    (herror : ((obtain p template).run s).1 = .error e) : e.path = p := by
  cases hexists : s.files.pathExists p with
  | true =>
      rw [obtain_of_pathExists hexists] at herror
      cases hread : Config.read s.files p with
      | error cause =>
          rw [hread] at herror
          obtain rfl := Except.error.inj herror
          exact Config.path_of_read hread
      | ok dst =>
          rw [hread] at herror
          cases herror
  | false =>
      rw [obtain_of_not_pathExists hexists h] at herror
      cases hcreate : Config.create s.files p (template.valueAt s.keywords) with
      | error cause =>
          rw [hcreate] at herror
          obtain rfl := Except.error.inj herror
          exact Config.path_of_create hcreate
      | ok files =>
          rw [hcreate] at herror
          cases herror

end Deploy

namespace Deployment

open Deploy (Destination)

/-- A file of the whitelist can be named if it has neither spaces nor ends of lines. -/
theorem isUnsupported_iff {input : String} :
    isUnsupported input = true ↔ ' ' ∈ input.toList ∨ '\n' ∈ input.toList := by
  rw [isUnsupported, Bool.or_eq_true, List.contains_iff_mem, List.contains_iff_mem]

theorem isUnsupported_eq :
    isUnsupported = fun input => decide (' ' ∈ input.toList ∨ '\n' ∈ input.toList) := by
  funext input
  rw [Bool.eq_iff_iff, isUnsupported_iff, decide_eq_true_iff]

theorem filter_isUnsupported_eq_nil_iff {inputs : List String} :
    inputs.filter isUnsupported = []
      ↔ ∀ input ∈ inputs, ' ' ∉ input.toList ∧ '\n' ∉ input.toList := by
  simp only [List.filter_eq_nil_iff, isUnsupported_iff, not_or]

/-! ## Edges -/

/-- A deployment has edges exactly if its config can be used and all its inputs can be named. -/
theorem edges_ne_nil_iff (t : Deployment) (s : Session) :
    (t.edges.run s).1 ≠ [] ↔ (∃ destination, t.destination s = .ok destination)
      ∧ ∀ input ∈ t.inputs, ' ' ∉ input.toList ∧ '\n' ∉ input.toList := by
  rw [edges_eq, ← filter_isUnsupported_eq_nil_iff]
  cases t.destination s with
  | error e => simp
  | ok destination => simp

/-! ## The session that is left -/

/-- No unusable config is recorded before the inputs were screened. -/
theorem exists_errors_screened (t : Deployment) (s : Session) :
    ∃ ps, (t.screened s).errors = s.errors ++ ps
      ∧ ps.filter Problem.isUnusableConfig = [] := by
  refine ⟨_, rfl, ?_⟩
  rw [List.filter_append, (Template.composed_pathIn _ _).filter_problemsAt, List.nil_append]
  split
  · rfl
  · exact t.dstDir.composed_compose.filter_problemsAt s.keywords

/-- One unusable config is recorded if the destination cannot be had, and none if it can. -/
theorem exists_errors_edges (t : Deployment) (s : Session) :
    ∃ recorded, (t.edges.run s).2.errors = s.errors ++ recorded
      ∧ recorded.filter Problem.isUnusableConfig = match t.destination s with
        | .error e => [.unusableConfig e.action (t.configPath s.keywords) e.code]
        | .ok _ => [] := by
  obtain ⟨ps, herrors, hps⟩ := t.exists_errors_screened s
  rw [run_edges]
  cases hfound : t.destination s with
  | error e =>
      have hpath : e.path = t.configPath s.keywords :=
        Destination.path_of_obtain t.dstDir.composed_compose.composes hfound
      refine ⟨ps ++ [e.problem], ?_, ?_⟩
      · rw [← List.append_assoc, ← herrors]
        rfl
      · rw [List.filter_append, hps, List.nil_append, ← hpath]
        rfl
  | ok destination =>
      simp only
      split
      · exact ⟨ps, herrors, hps⟩
      · let src := Template.pathIn (.ofKeyword .currentOutputDir) t.srcDir
        have hsrc : src.Composed := Template.composed_pathIn _ _
        refine ⟨ps ++ src.problemsAt s.keywords, ?_, ?_⟩
        · rw [Session.addErrors, herrors, List.append_assoc]
        · rw [List.filter_append, hps, hsrc.filter_problemsAt, List.nil_append]

/-- All inputs that cannot be named are recorded, in order. -/
theorem warnings_edges (t : Deployment) (s : Session) : (t.edges.run s).2.warnings
    = s.warnings ++ (t.inputs.filter isUnsupported).map .unnameableInput := by
  obtain ⟨ps, hstate⟩ := t.exists_snd_run_edges s
  rw [hstate, Session.addErrors, screened]

section PathExists

variable {t : Deployment} {s : Session}

theorem destination_of_pathExists (h : s.files.pathExists (t.configPath s.keywords) = true) :
    t.destination s = (Deploy.Config.read s.files (t.configPath s.keywords)).map .found := by
  rw [destination, Destination.obtain_of_pathExists h]

theorem screened_of_pathExists (h : s.files.pathExists (t.configPath s.keywords) = true) :
    t.screened s = { s with
      errors := s.errors
        ++ (Template.pathIn (.ofKeyword .currentInputDir) t.config).problemsAt s.keywords
      warnings := s.warnings ++ (t.inputs.filter isUnsupported).map .unnameableInput } := by
  rw [screened, if_pos h, List.append_nil, Destination.obtain_of_pathExists h]

/-- Where something lies at the path of the config, the destination of the description has no part
in the run. -/
theorem run_edges_of_pathExists (h : s.files.pathExists (t.configPath s.keywords) = true)
    (dst : Template) : { t with dstDir := dst }.edges.run s = t.edges.run s := by
  let u := { t with dstDir := dst }
  have hu : s.files.pathExists (u.configPath s.keywords) = true := h
  have hscreened : u.screened s = t.screened s :=
    (screened_of_pathExists hu).trans (screened_of_pathExists h).symm
  have hfound : u.destination s = t.destination s :=
    (destination_of_pathExists hu).trans (destination_of_pathExists h).symm
  rw [run_edges, run_edges, hscreened, hfound]
  cases t.destination s with
  | error e => rfl
  | ok destination => rfl

end PathExists

/-! ## Outcomes -/

/-- A deployment has the edge that carries it out and its alias, or no edge, and both exactly if its
config can be used and all its inputs can be named.  Every input that cannot be named is recorded,
and so is the config if it cannot be used, whatever else is wrong.  The destination of the
description has no part in this where a config is. -/
theorem outcome_edges (t : Deployment) (s : Session) :
    let config := t.configPath s.keywords
    let found := (Destination.obtain config t.dstDir.compose).run s
    let src := t.sourcePath s.keywords
    let es := (t.edges.run s).1
    let after := (t.edges.run s).2
    (es ≠ [] ↔ (∃ destination, found.1 = .ok destination)
        ∧ ∀ input ∈ t.inputs, ' ' ∉ input.toList ∧ '\n' ∉ input.toList)
      ∧ (es ≠ [] → ∃ sync name, es = [sync, name]
        ∧ sync.rule = Target.Kind.rsync.name ∧ name.rule = Rule.aliasName
        ∧ sync.outputs = [Path.withSuffix src timestampSuffix] ∧ name.outputs = [t.name]
        ∧ name.inputs = sync.outputs
        ∧ sync.all = false ∧ name.all = false
        ∧ sync.inputs = t.inputs.map (Path.join src)
        ∧ sync.regenImplicits = [config] ∧ name.regenImplicits = [])
      ∧ after.warnings = s.warnings ++ (t.inputs.filter fun input =>
        ' ' ∈ input.toList ∨ '\n' ∈ input.toList).map .unnameableInput
      ∧ (∃ recorded, after.errors = s.errors ++ recorded
        ∧ recorded.filter Problem.isUnusableConfig = match found.1 with
          | .error e => [.unusableConfig e.action config e.code]
          | .ok _ => [])
      ∧ after.files = found.2.files
      ∧ ((∃ l e, s.files.resolve config = .ok l ∧ s.files.lookup l = some e) →
        ∀ dst, { t with dstDir := dst }.edges.run s = t.edges.run s) := by
  intro config found src es after
  have hrun : (Destination.obtain (t.configPath s.keywords) t.dstDir.compose).run s = found := rfl
  have hfound : t.destination s = found.1 := congrArg Prod.fst hrun
  have hfiles := t.files_edges s
  rw [hrun] at hfiles
  obtain ⟨recorded, herrors, hunusable⟩ := t.exists_errors_edges s
  rw [← hfound]
  refine ⟨t.edges_ne_nil_iff s, fun hne => ?_, ?_, ⟨recorded, herrors, hunusable.trans ?_⟩, hfiles,
    ?_⟩
  · obtain ⟨sync, rest, hedges⟩ := List.exists_cons_of_ne_nil hne
    obtain ⟨destination, -, -, rfl, rfl⟩ := t.edges_eq_cons hedges
    exact ⟨_, _, hedges, rfl, rfl, rfl, rfl, rfl, rfl, rfl, rfl, rfl, rfl⟩
  · rw [← isUnsupported_eq]
    exact t.warnings_edges s
  · cases t.destination s with
    | error e => rfl
    | ok destination => rfl
  · rintro ⟨l, e, hl, he⟩ dst
    exact run_edges_of_pathExists (Files.pathExists_iff.2
      ⟨e, Files.stat_eq_ok_iff.2 ⟨l, hl, he⟩⟩) dst

/-- Where a config is, it does not matter where the description would deploy to.  Inputs that cannot
be named are recorded in order, and then there are no edges. -/
theorem outcome_edges_of_config :
    let t : Deployment := {
      name := "deploy"
      inputs := ["a", "b"]
      srcDir := .literal "pub"
      config := .literal "config"
      dstDir := .literal "host:/srv" }
    let u : Deployment := { t with inputs := ["a b", "c", "d\n"] }
    let s := Session.ofInvocation "/" "HAGA.lua" "haga" {}
      (({} : Files).insert ["config"] (Deploy.Config.entry "host:/var"))
    (t.edges.run s).1.map Edge.outputs = [["/out/pub.timestamp"], ["deploy"]]
      ∧ (u.edges.run s).1 = []
      ∧ (u.edges.run s).2.warnings = [.unnameableInput "a b", .unnameableInput "d\n"]
      ∧ ∀ dst, { t with dstDir := dst }.edges.run s = t.edges.run s := by
  intro t u s
  have hconfig : t.configPath s.keywords = "/config" := by decide +kernel
  have hsrc : t.sourcePath s.keywords = "/out/pub" := by decide +kernel
  have hpieces : Path.pieces "/config" = [""] ++ ["config"] := by decide +kernel
  have hvacant : ({} : Files).Vacant "/config" ["config"] false :=
    Files.vacant_of_pieces rfl hpieces (by decide) (by decide) (by decide +kernel) rfl rfl
  have hlink := Deploy.Config.entry_ne_link "host:/var"
  have hplace : s.files.resolve "/config" = .ok ["config"] := hvacant.resolve_insert hlink
  have hfound (v : Deployment) (hv : v.configPath s.keywords = "/config") :
      ((Destination.obtain (v.configPath s.keywords) v.dstDir.compose).run s).1
        = .ok (.found "host:/var") := by
    rw [hv, Destination.obtain_of_stat (hvacant.stat_insert hlink), if_pos (by decide)]
  obtain ⟨hedges, htwo, -, -, -, hsame⟩ := outcome_edges t s
  obtain ⟨sync, name, hes, -, -, hsync, hname, -⟩ :=
    htwo (hedges.2 ⟨⟨_, hfound t hconfig⟩, by decide⟩)
  obtain ⟨hnone, -, hwarned, -, -, -⟩ := outcome_edges u s
  refine ⟨?_, ?_, hwarned.trans (by decide), hsame ⟨["config"], _, ?_, rfl⟩⟩
  · rw [hes, List.map_cons, List.map_cons, hsync, hname, hsrc]
    decide
  · by_contra hne
    exact absurd ((hnone.1 hne).2 "a b" (by decide)) (by decide)
  · rw [hconfig]
    exact hplace

end Deployment

end BuildGraph
