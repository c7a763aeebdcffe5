import BuildGraph.Proofs.DeployCommand
import BuildGraph.Proofs.Directories
import BuildGraph.Proofs.Repeating

/-!
# Shared configs

On a first generation no config is there, so each deployment writes one with its own destination,
unless its config is that of an earlier deployment.  Then it reads what that one has written, and
its own destination is not looked at.  So all deployments that share a config go where the first of
them does (`Description.destinations_graph`).

Which paths lead to one config is a matter of the files that are left, as there may be links on the
way.  What a generation adds are files, neither directories nor links, so a path at which nothing
was leads to a config that was added (`Files.AddsEnds.lookup_eq_none`).  The invariant of the run
over the targets is that every config that was added holds the destination of the first deployment
that it belongs to (`Deployment.Deployed`).
-/

namespace BuildGraph

open Build Deploy

/-! ## What is added -/

namespace Files

variable {fs more : Files}

/-- Whatever lies in files and not in others can neither be walked through nor followed. -/
def AddsEnds (fs more : Files) : Prop :=
  ∀ l e, fs.lookup l = none → more.lookup l = some e → e ≠ .directory ∧ ∀ target, e ≠ .link target

namespace AddsEnds

theorem differsAtEnds (h : fs.AddsEnds more) (hmore : fs.Extends more) :
    fs.DiffersAtEnds more := by
  intro l
  cases hfs : fs.lookup l with
  | some e => exact .inl (hmore.lookup_eq hfs)
  | none =>
      cases hl : more.lookup l with
      | none => exact .inl rfl
      | some e => exact .inr ⟨e, rfl, h l e hfs hl⟩

/-- A path at which nothing was leads to something new. -/
theorem lookup_eq_none (h : fs.AddsEnds more) (hmore : fs.Extends more) {p : String}
    {l : Location} (hp : fs.pathExists p = false) (hl : more.resolve p = .ok l) :
    fs.lookup l = none := by
  by_contra hne
  obtain ⟨e, he⟩ := Option.ne_none_iff_exists'.1 hne
  obtain ⟨hcheck, hwalk⟩ := resolve_eq_ok_iff.1 hl
  rw [hmore.start_eq] at hwalk
  have hwalks := (h.differsAtEnds hmore).walks (walk_eq_ok_iff.1 hwalk)
    ((hmore.lookup_eq he).trans he.symm)
  have hstat := stat_of_walks hcheck hwalks he
  rw [pathExists_iff.2 ⟨e, hstat⟩] at hp
  cases hp

end AddsEnds

end Files

/-! ## Destinations -/

/-- A destination is that of the config where one lies, or the template's, which is written. -/
theorem Deploy.Destination.obtain_ok_cases {p : String} {template : Build String}
    (h : template.Composes) {s s' : Session} {destination : Destination}
    (hrun : (obtain p template).run s = (.ok destination, s')) :
    (∃ e, s.files.stat p = .ok e ∧ Config.read s.files p = .ok destination.dst
      ∧ s'.files = s.files)
    ∨ (destination.dst = template.valueAt s.keywords
      ∧ ∃ l, s.files.Vacant p l false
        ∧ s'.files = s.files.insert l (Config.entry destination.dst)) := by
  cases hexists : s.files.pathExists p with
  | true =>
      obtain ⟨e, hstat⟩ := Files.pathExists_iff.1 hexists
      rw [obtain_of_pathExists hexists] at hrun
      obtain ⟨hread, rfl⟩ := Prod.mk.inj hrun
      refine .inl ⟨e, hstat, ?_, rfl⟩
      cases hconfig : Config.read s.files p with
      | error e =>
          rw [hconfig] at hread
          cases hread
      | ok dst =>
          rw [hconfig] at hread
          obtain rfl := Except.ok.inj hread
          rfl
  | false =>
      rw [obtain_of_not_pathExists hexists h] at hrun
      cases hcreate : Config.create s.files p (template.valueAt s.keywords) with
      | error e =>
          rw [hcreate] at hrun
          cases hrun
      | ok files =>
          rw [hcreate] at hrun
          obtain ⟨hdst, rfl⟩ := Prod.mk.inj hrun
          obtain rfl := Except.ok.inj hdst
          obtain ⟨l, hvacant, rfl⟩ := Config.exists_vacant_of_create hcreate
          exact .inr ⟨rfl, l, hvacant, rfl⟩

namespace Deployment

/-- Edges of a deployment to a destination: one that carries it out, and its alias. -/
def GoesTo (dst : String) (es : List Edge) : Prop :=
  ∃ sync name, es = [sync, name] ∧ sync.vars.entries.lookup "dstDir" = some (ShellWord.quote dst)

theorem GoesTo.ne_nil {dst : String} {es : List Edge} (h : GoesTo dst es) : es ≠ [] := by
  obtain ⟨_, _, rfl, -⟩ := h
  exact List.cons_ne_nil _ _

/-- Edges go to one destination only, as it is written. -/
theorem GoesTo.quote_eq {dst dst' : String} {es : List Edge} (h : GoesTo dst es)
    (h' : GoesTo dst' es) : ShellWord.quote dst = ShellWord.quote dst' := by
  obtain ⟨sync, name, rfl, hdst⟩ := h
  obtain ⟨_, _, hes, hdst'⟩ := h'
  obtain ⟨rfl, -⟩ := List.cons.inj hes
  exact Option.some.inj (hdst.symm.trans hdst')

/-- A deployment that records no error has a destination, and leaves the files that obtaining it
leaves. -/
theorem exists_obtain {t : Deployment} {s : Session} (h : (t.edges.run s).2.errors = []) :
    ∃ destination s', (Destination.obtain (t.configPath s.keywords) t.dstDir.compose).run s
        = (.ok destination, s')
      ∧ (t.edges.run s).2.files = s'.files
      ∧ ((t.edges.run s).1 ≠ [] → GoesTo destination.dst (t.edges.run s).1) := by
  cases hfound : t.destination s with
  | error e =>
      rw [run_edges, hfound] at h
      exact absurd h (List.append_ne_nil_of_right_ne_nil _ (List.cons_ne_nil _ _))
  | ok goal =>
      have hfiles := t.files_edges s
      rw [destination] at hfound
      rcases hrun : (Destination.obtain (t.configPath s.keywords) t.dstDir.compose).run s
        with ⟨found, s'⟩
      rw [hrun] at hfound hfiles
      obtain rfl : found = .ok goal := hfound
      refine ⟨goal, s', rfl, hfiles, fun hne => ?_⟩
      obtain ⟨sync, rest, hedges⟩ := List.exists_cons_of_ne_nil hne
      obtain ⟨goal', hgoal, -, rfl, rfl⟩ := t.edges_eq_cons hedges
      rw [destination, hrun] at hgoal
      obtain rfl := Except.ok.inj hgoal
      rw [hedges]
      exact ⟨_, _, rfl, rfl⟩

/-! ## Runs over targets -/

/-- Of some deployments the first whose config lies at a place. -/
def firstAt (fs : Files) (values : KeywordValues) (us : List Deployment)
    (place : Except FileError Location) : Option Deployment :=
  us.find? fun u => fs.resolve (u.configPath values) = place

section First

variable {fs : Files} {values : KeywordValues} {us : List Deployment} {u : Deployment}
  {place : Except FileError Location}

theorem firstAt_append (h : firstAt fs values us place = some u) (ts : List Deployment) :
    firstAt fs values (us ++ ts) place = some u := by
  rw [firstAt] at h ⊢
  rw [List.find?_append, h, Option.some_or]

theorem mem_of_firstAt (h : firstAt fs values us place = some u) :
    u ∈ us ∧ fs.resolve (u.configPath values) = place :=
  ⟨List.mem_of_find?_eq_some h, by simpa using List.find?_some h⟩

end First

/-- How some deployments leave files that were `base` before them and will be `last`: the config of
each is there, and what was added are configs, each with the destination of the first deployment
that it belongs to. -/
structure Deployed (base last : Files) (values : KeywordValues) (us : List Deployment)
    (fs : Files) : Prop where
  before : base.Extends fs
  after : fs.Extends last
  present : ∀ u ∈ us, ∃ e, fs.stat (u.configPath values) = .ok e
  added : ∀ l e, base.lookup l = none → fs.lookup l = some e →
    ∃ u, firstAt last values us (.ok l) = some u ∧ e = Config.entry (u.dstDir.textAt values)

namespace Deployed

variable {base last fs : Files} {values : KeywordValues} {us : List Deployment} {t : Deployment}

/-- At the start nothing was added. -/
theorem start (h : base.Extends last) : Deployed base last values [] base where
  before := .refl base
  after := h
  present := List.forall_mem_nil _
  added := Files.Adds.refl _ base

theorem addsEnds (h : Deployed base last values us fs) : base.AddsEnds fs := by
  intro l e hnone hl
  obtain ⟨u, -, rfl⟩ := h.added l e hnone hl
  exact ⟨Entry.noConfusion, Config.entry_ne_link _⟩

/-- Where nothing was at first lies the config of the first deployment with the same config. -/
theorem exists_firstAt (h : Deployed base last values us fs) {p : String} {e : Entry}
    (hfree : base.pathExists p = false) (hstat : fs.stat p = .ok e) :
    ∃ u, firstAt last values us (last.resolve p) = some u
      ∧ e = Config.entry (u.dstDir.textAt values) := by
  obtain ⟨l, hl, he⟩ := Files.stat_eq_ok_iff.1 hstat
  rw [h.after.resolve_eq hl]
  exact h.added l e (h.addsEnds.lookup_eq_none h.before hfree hl) he

/-- The first deployments stay first when others come after them. -/
theorem added_append (h : Deployed base last values us fs) (ts : List Deployment) :
    base.Adds (fun l e => ∃ u, firstAt last values (us ++ ts) (.ok l) = some u
      ∧ e = Config.entry (u.dstDir.textAt values)) fs := by
  refine Files.Adds.mono h.added ?_
  rintro l e ⟨u, hu, he⟩
  exact ⟨u, firstAt_append hu ts, he⟩

/-- A deployment whose config is there changes nothing. -/
theorem found (h : Deployed base last values us fs) {e : Entry}
    (hstat : fs.stat (t.configPath values) = .ok e) : Deployed base last values (us ++ [t]) fs where
  before := h.before
  after := h.after
  present := List.forall_mem_append.2 ⟨h.present, List.forall_mem_singleton.2 ⟨e, hstat⟩⟩
  added := h.added_append [t]

/-- A config that is written is the first at its place. -/
theorem firstAt_concat (h : Deployed base last values us fs) {l : Location}
    (hnone : fs.lookup l = none) (hl : last.resolve (t.configPath values) = .ok l) :
    firstAt last values (us ++ [t]) (.ok l) = some t := by
  have hus : ∀ u ∈ us, ¬last.resolve (u.configPath values) = .ok l := by
    intro u hu hlu
    obtain ⟨e, he⟩ := h.present u hu
    obtain ⟨m, hm, hlookup⟩ := Files.stat_eq_ok_iff.1 he
    rw [h.after.resolve_eq hm] at hlu
    rw [Except.ok.inj hlu, hnone] at hlookup
    cases hlookup
  rw [firstAt, List.find?_append, List.find?_eq_none.2 (by simpa using hus), Option.none_or,
    List.find?_cons_of_pos (by simpa using hl)]

/-- A deployment whose config is not there writes it. -/
theorem written (h : Deployed base last values us fs) {l : Location}
    (hvacant : fs.Vacant (t.configPath values) l false)
    (hlast : (fs.insert l (Config.entry (t.dstDir.textAt values))).Extends last) :
    Deployed base last values (us ++ [t])
        (fs.insert l (Config.entry (t.dstDir.textAt values)))
      ∧ firstAt last values (us ++ [t]) (last.resolve (t.configPath values)) = some t := by
  have hnone := hvacant.lookup_eq_none
  have hgrows := Files.Extends.of_insert hnone (Config.entry (t.dstDir.textAt values))
  have hplace := hlast.resolve_eq (hvacant.resolve_insert (Config.entry_ne_link _))
  have hfirst := h.firstAt_concat hnone hplace
  rw [hplace]
  have hnew := Files.Adds.trans (h.added_append [t]) (Files.Adds.insert ⟨t, hfirst, rfl⟩) hgrows
  refine ⟨⟨h.before.trans hgrows, hlast, ?_, hnew⟩, hfirst⟩
  refine List.forall_mem_append.2 ⟨fun u hu => ?_, List.forall_mem_singleton.2
    ⟨_, hvacant.stat_insert (Config.entry_ne_link _)⟩⟩
  obtain ⟨e, he⟩ := h.present u hu
  exact ⟨e, hgrows.stat_eq he⟩

/-- A deployment goes where the first one with its config goes. -/
theorem edges {s : Session} (h : Deployed base last s.keywords us s.files)
    (hfree : base.pathExists (t.configPath s.keywords) = false)
    (herrors : (t.edges.run s).2.errors = [])
    (hlast : (t.edges.run s).2.files.Extends last) :
    Deployed base last s.keywords (us ++ [t]) (t.edges.run s).2.files
      ∧ ((t.edges.run s).1 ≠ [] → ∃ u,
        firstAt last s.keywords (us ++ [t]) (last.resolve (t.configPath s.keywords)) = some u
          ∧ GoesTo (u.dstDir.textAt s.keywords) (t.edges.run s).1) := by
  obtain ⟨destination, s', hrun, hfiles, hedges⟩ := exists_obtain herrors
  rw [hfiles] at hlast ⊢
  obtain ⟨e, hstat, hread, hkept⟩ | ⟨hdst, l, hvacant, hadded⟩ :=
    Destination.obtain_ok_cases t.dstDir.composed_compose.composes hrun
  · obtain ⟨u, hu, rfl⟩ := h.exists_firstAt hfree hstat
    rw [Config.read_of_stat hstat] at hread
    have hdst : u.dstDir.textAt s.keywords = destination.dst := by
      split at hread
      · exact Except.ok.inj hread
      · cases hread
    rw [← hdst] at hedges
    rw [hkept]
    exact ⟨h.found hstat, fun hne => ⟨u, firstAt_append hu [t], hedges hne⟩⟩
  · rw [Template.valueAt_compose] at hdst
    rw [hdst] at hadded hedges
    rw [hadded] at hlast ⊢
    obtain ⟨hdeployed, hfirst⟩ := h.written hvacant hlast
    exact ⟨hdeployed, fun hne => ⟨t, hfirst, hedges hne⟩⟩

end Deployed

end Deployment

/-! ## Targets -/

/-- The deployment that a target is. -/
def Target.deployment? : Target → Option Deployment
  | .rsync t => some t
  | _ => none

theorem Target.deployment?_eq_some_iff {t : Target} {u : Deployment} :
    t.deployment? = some u ↔ t = .rsync u := by
  cases t <;> simp [deployment?]

theorem Target.filterMap_deployment?_cons (t : Target) (ts : List Target) :
    (t :: ts).filterMap deployment? = t.deployment?.toList ++ ts.filterMap deployment? := by
  cases ht : t.deployment? with
  | none => rw [List.filterMap_cons_none ht, Option.toList_none, List.nil_append]
  | some u => rw [List.filterMap_cons_some ht, Option.toList_some, List.singleton_append]

/-- A target that is no deployment leaves the files as they are. -/
theorem Target.keeps_files_edges {t : Target} (h : t.deployment? = none) :
    Keeps Session.files t.edges := by
  obtain hcomposed | ⟨u, rfl⟩ := t.composed_or_rsync
  · exact hcomposed.keeps fun _ _ => rfl
  · cases h

namespace Deployment

/-- Edges of a target go, if it is a deployment and has any, where the first deployment with its
config goes. -/
def Follows (fs : Files) (values : KeywordValues) (us : List Deployment) (t : Target)
    (es : List Edge) : Prop :=
  ∀ u, t = .rsync u → es ≠ [] → ∃ first,
    firstAt fs values us (fs.resolve (u.configPath values)) = some first
      ∧ GoesTo (first.dstDir.textAt values) es

/-- Edges of a target go, if it is a deployment and has any, to its own destination. -/
def GoesToOwn (values : KeywordValues) (t : Target) (es : List Edge) : Prop :=
  ∀ u, t = .rsync u → es ≠ [] → GoesTo (u.dstDir.textAt values) es

theorem Follows.append {fs : Files} {values : KeywordValues} {us : List Deployment} {t : Target}
    {es : List Edge} (h : Follows fs values us t es) (ts : List Deployment) :
    Follows fs values (us ++ ts) t es := by
  intro u ht hes
  obtain ⟨first, hfirst, hgoes⟩ := h u ht hes
  exact ⟨first, firstAt_append hfirst ts, hgoes⟩

section Targets

variable {base last : Files} {us : List Deployment} {s : Session}

/-- One target more. -/
theorem Deployed.target (h : Deployed base last s.keywords us s.files) {t : Target}
    (hfree : ∀ u, t = .rsync u → base.pathExists (u.configPath s.keywords) = false)
    (herrors : (t.edges.run s).2.errors = [])
    (hlast : (t.edges.run s).2.files.Extends last) :
    Deployed base last s.keywords (us ++ t.deployment?.toList) (t.edges.run s).2.files
      ∧ Follows last s.keywords (us ++ t.deployment?.toList) t (t.edges.run s).1 := by
  cases ht : t.deployment? with
  | none =>
      rw [Option.toList_none, List.append_nil, Target.keeps_files_edges ht s]
      refine ⟨h, fun u hu => ?_⟩
      rw [hu] at ht
      cases ht
  | some u =>
      obtain rfl := Target.deployment?_eq_some_iff.1 ht
      rw [Target.edges_rsync] at herrors hlast ⊢
      obtain ⟨hdeployed, hgoes⟩ := h.edges (hfree u rfl) herrors hlast
      refine ⟨hdeployed, fun u' hu' hes => ?_⟩
      obtain rfl := Target.rsync.inj hu'
      exact hgoes hes

/-- The targets one after the other. -/
theorem Deployed.each {ts : List Target} (h : Deployed base last s.keywords us s.files)
    (hfree : ∀ t, .rsync t ∈ ts → base.pathExists (t.configPath s.keywords) = false)
    (herrors : ((Build.each Target.edges ts).run s).2.errors = [])
    (hlast : ((Build.each Target.edges ts).run s).2.files.Extends last) :
    List.Forall₂ (Follows last s.keywords (us ++ ts.filterMap Target.deployment?)) ts
      ((Build.each Target.edges ts).run s).1 := by
  induction ts generalizing us s with
  | nil => exact .nil
  | cons t ts ih =>
      have hrun : (Build.each Target.edges (t :: ts)).run s
          = ((t.edges.run s).1 :: ((Build.each Target.edges ts).run (t.edges.run s).2).1,
            ((Build.each Target.edges ts).run (t.edges.run s).2).2) := rfl
      rw [hrun] at herrors hlast ⊢
      have hrest := repeats_each Target.repeats_edges ts
      have hkeywords := t.keywords_edges s
      have hus : us ++ (t :: ts).filterMap Target.deployment?
          = us ++ t.deployment?.toList ++ ts.filterMap Target.deployment? := by
        rw [Target.filterMap_deployment?_cons, List.append_assoc]
      have hfirst := errors_eq_nil_of_prefix (hrest.errors _) herrors
      obtain ⟨hdeployed, hfollows⟩ := h.target
        (fun u hu => hfree u (hu ▸ List.mem_cons_self)) hfirst ((hrest.files _).trans hlast)
      rw [← hkeywords] at hdeployed hfree
      have hfollowing := ih hdeployed (fun u hu => hfree u (List.mem_cons_of_mem _ hu)) herrors
        hlast
      rw [hkeywords] at hfollowing
      rw [hus]
      exact .cons (hfollows.append _) hfollowing

end Targets

end Deployment

/-! ## Descriptions -/

theorem Session.besideRules_files : BesideRules files where
  errors _ _ := rfl
  rules _ _ := rfl

@[simp] theorem Edge.vars_after (regen e : Edge) : (regen.after e).vars = e.vars := by
  unfold after
  split <;> rfl

namespace Description

variable {d : Description} {s : Session}

/-- Registering rules leaves the files as they are. -/
theorem keeps_files_registerRules (d : Description) : Keeps Session.files d.registerRules :=
  d.keeps_registerRules Session.besideRules_files

/-- The edges of the targets keep their variables. -/
theorem vars_suffix_graph (d : Description) (s : Session) :
    (d.edgesByTarget s).flatten.map (·.vars) <:+ (d.graph.run s).1.edges.map (·.vars) :=
  d.map_suffix_graph Edge.vars_after (fun _ _ => rfl) s

/-- On a first generation each deployment goes where the first deployment of the description goes
whose config is the same file, and so to its own destination if no two share a config.  The edges
of the graph have the variables that say so. -/
theorem destinations_graph
    (hfree : ∀ t, .rsync t ∈ d.targets → s.files.pathExists (t.configPath s.keywords) = false)
    (herrors : (d.graph.run s).2.errors = []) :
    List.Forall₂ (Deployment.Follows (d.graph.run s).2.files s.keywords
        (d.targets.filterMap Target.deployment?)) d.targets (d.edgesByTarget s)
      ∧ ((∀ t u, .rsync t ∈ d.targets → .rsync u ∈ d.targets →
          (d.graph.run s).2.files.resolve (t.configPath s.keywords)
            = (d.graph.run s).2.files.resolve (u.configPath s.keywords) → t = u) →
        List.Forall₂ (Deployment.GoesToOwn s.keywords) d.targets (d.edgesByTarget s))
      ∧ (d.edgesByTarget s).flatten.map (·.vars) <:+ (d.graph.run s).1.edges.map (·.vars) := by
  let registered := (d.registerRules.run s).2
  have hfiles : registered.files = s.files := d.keeps_files_registerRules s
  have hkeywords : registered.keywords = s.keywords := d.takes_registerRules.keywords s
  have hregen := repeats_withRegeneration (d.outline.run s).1
  have heach : ((Build.each Target.edges d.targets).run registered).2.errors = [] :=
    errors_eq_nil_of_prefix (hregen.errors (d.outline.run s).2) herrors
  have hlast : ((Build.each Target.edges d.targets).run registered).2.files.Extends
      (d.graph.run s).2.files := hregen.files (d.outline.run s).2
  have hgrows := (repeats_each Target.repeats_edges d.targets).files registered
  have hstart : Deployment.Deployed registered.files (d.graph.run s).2.files registered.keywords
      [] registered.files := .start (hgrows.trans hlast)
  rw [← hfiles, ← hkeywords] at hfree
  have hfollows := hstart.each hfree heach hlast
  rw [List.nil_append, hkeywords] at hfollows
  refine ⟨hfollows, fun hown => ?_, d.vars_suffix_graph s⟩
  refine ((List.forall₂_and_left _ _).2 ⟨fun _ => id, hfollows⟩).imp ?_
  rintro t es ⟨ht, hes⟩ u rfl hne
  obtain ⟨first, hfirst, hgoes⟩ := hes u rfl hne
  obtain ⟨hmem, hplace⟩ := Deployment.mem_of_firstAt hfirst
  obtain ⟨t', ht', hdeployment⟩ := List.mem_filterMap.1 hmem
  obtain rfl := Target.deployment?_eq_some_iff.1 hdeployment
  rwa [hown first u ht' ht hplace] at hgoes

/-- A page that is deployed with a config that all such deployments share. -/
def page (name srcDir dstDir : String) : Deployment := {
  name := name
  inputs := ["index.html"]
  srcDir := .literal srcDir
  config := .literal "config"
  dstDir := .literal dstDir }

/-- Two deployments with one config. -/
def twoPages : Description := {
  targets := [.rsync (page "first" "pub" "host:/first"),
    .rsync (page "second" "docs" "host:/second")] }

/-- The config of a page lies in the directory of the description. -/
theorem run_config_page (name srcDir dstDir : String) {s : Session}
    (hs : s.keywords = (Session.ofInvocation "/" "HAGA.lua" "haga" {} {}).keywords) :
    (Template.pathIn (.ofKeyword .currentInputDir) (page name srcDir dstDir).config).run s
      = ("/config", s) := by
  have hvalue : (Template.pathIn (.ofKeyword .currentInputDir) (.literal "config")).valueAt
      (Session.ofInvocation "/" "HAGA.lua" "haga" {} {}).keywords = "/config" := by decide +kernel
  rw [page, (Template.composed_pathIn _ _).composes, hs, hvalue]
  exact congrArg (Prod.mk "/config") (Session.addErrors_nil s)

/-- Of two deployments with one config the second is carried out to the destination of the
first. -/
theorem run_graph_twoPages :
    let s := Session.ofInvocation "/" "HAGA.lua" "haga" {} {}
    (∀ t, .rsync t ∈ twoPages.targets → s.files.pathExists (t.configPath s.keywords) = false)
      ∧ (twoPages.graph.run s).2.errors = []
      ∧ ∃ es es', twoPages.edgesByTarget s = [es, es'] ∧ Deployment.GoesTo "host:/first" es
        ∧ Deployment.GoesTo "host:/first" es' := by
  intro s
  let s' := (twoPages.registerRules.run s).2
  let after := { s' with files := s'.files.insert ["config"] (Config.entry "host:/first") }
  have hpieces : Path.pieces "/config" = [""] ++ ["config"] := by decide +kernel
  have hvacant : s'.files.Vacant "/config" ["config"] false :=
    Files.vacant_of_pieces rfl hpieces (by decide) (by decide) (by decide +kernel) rfl rfl
  have hshort : ¬Files.maxPath
      ≤ (s'.files.draftPath (Path.directoryOf "/config")).utf8ByteSize := by decide +kernel
  have hback : Config.ReadsBack "host:/first" := by decide
  obtain ⟨es, hfirst, hes⟩ : ∃ es, (page "first" "pub" "host:/first").edges.run s' = (es, after)
      ∧ Deployment.GoesTo "host:/first" es := by
    unfold Deployment.edges
    rw [run_bind, run_config_page _ _ _ (s := s') rfl, run_bind,
      show (page "first" "pub" "host:/first").dstDir.compose = pure "host:/first" from rfl,
      Destination.obtain_of_vacant hvacant, if_neg hshort]
    exact ⟨_, rfl, _, _, rfl, rfl⟩
  obtain ⟨es', hsecond, hes'⟩ :
      ∃ es, (page "second" "docs" "host:/second").edges.run after = (es, after)
        ∧ Deployment.GoesTo "host:/first" es := by
    unfold Deployment.edges
    rw [run_bind, run_config_page _ _ _ (s := after) rfl, run_bind,
      Destination.obtain_of_stat (hvacant.stat_insert (Config.entry_ne_link _)), if_pos hback]
    exact ⟨_, rfl, _, _, rfl, rfl⟩
  have heach : (Build.each Target.edges twoPages.targets).run s' = ([es, es'], after) := by
    rw [twoPages, Build.each, run_bind, Target.edges, hfirst, run_bind, Build.each, run_bind,
      Target.edges, hsecond]
    rfl
  have herrors : (twoPages.graph.run s).2.errors = [] := by
    unfold graph
    rw [run_bind, run_outline heach]
    rfl
  refine ⟨fun t ht => ?_, herrors, es, es', congrArg Prod.fst heach, hes, hes'⟩
  have hconfig : t.configPath s.keywords = "/config" := by
    simp only [twoPages, List.mem_cons, Target.rsync.injEq, List.not_mem_nil, or_false] at ht
    obtain rfl | rfl := ht <;> exact congrArg Prod.fst (run_config_page _ _ _ rfl)
  rw [hconfig]
  exact hvacant.pathExists_eq_false

/-- Two deployments with one config both go where the first goes. -/
theorem destinations_graph_of_shared_config :
    let s := Session.ofInvocation "/" "HAGA.lua" "haga" {} {}
    (∀ t, .rsync t ∈ twoPages.targets → s.files.pathExists (t.configPath s.keywords) = false)
      ∧ (twoPages.graph.run s).2.errors = []
      ∧ (∃ es es', twoPages.edgesByTarget s = [es, es'] ∧ es ≠ [] ∧ es' ≠ [])
      ∧ List.Forall₂ (Deployment.Follows (twoPages.graph.run s).2.files s.keywords
          [page "first" "pub" "host:/first", page "second" "docs" "host:/second"])
        twoPages.targets (twoPages.edgesByTarget s) := by
  obtain ⟨hfree, herrors, es, es', hedges, hes, hes'⟩ := run_graph_twoPages
  exact ⟨hfree, herrors, ⟨es, es', hedges, hes.ne_nil, hes'.ne_nil⟩,
    (destinations_graph hfree herrors).1⟩

/-- Two deployments with one config do not both go to their own destinations. -/
theorem not_goesToOwn_of_shared_config :
    let s := Session.ofInvocation "/" "HAGA.lua" "haga" {} {}
    (∀ t, .rsync t ∈ twoPages.targets → s.files.pathExists (t.configPath s.keywords) = false)
      ∧ (twoPages.graph.run s).2.errors = []
      ∧ ¬List.Forall₂ (Deployment.GoesToOwn s.keywords) twoPages.targets
        (twoPages.edgesByTarget s) := by
  obtain ⟨hfree, herrors, es, es', hedges, hes, hes'⟩ := run_graph_twoPages
  refine ⟨hfree, herrors, fun hown => ?_⟩
  rw [hedges] at hown
  obtain ⟨-, hrest⟩ := List.forall₂_cons.1 hown
  obtain ⟨hsecond, -⟩ := List.forall₂_cons.1 hrest
  have hdst := hes'.quote_eq (hsecond _ rfl hes'.ne_nil)
  revert hdst
  decide

end Description

end BuildGraph
