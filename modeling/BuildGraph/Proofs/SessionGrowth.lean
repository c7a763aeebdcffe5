import BuildGraph.Description.Graph
import BuildGraph.Proofs.RuleNames

/-!
# What a session gains

Nothing that expands a description takes anything away from a session: keywords keep their values,
rules are added behind those that are registered, and problems behind those that were recorded.
Nor does it look at the recorded problems, so what it records is what it records in a session
without any (`Build.Grows`).  Sequences of such computations are such again, which carries the
property from the composition of a fragment to the graph of a description.

A report takes the problems away.  The next one holds what each operation in between recorded, in
their order, and nothing else (`Session.takeReport_since`).
-/

namespace BuildGraph

open Build Deploy

variable {α β : Type}

/-! ## Growth -/

/-- The session with the problems of a report recorded before its own. -/
def Session.after (s : Session) (r : Report) : Session :=
  { s with errors := r.errors ++ s.errors, warnings := r.warnings ++ s.warnings }

/-- A session is what a report leaves of it, after the problems of the report. -/
theorem Session.after_takeReport (s : Session) : s.takeReport.2.after s.takeReport.1 = s := by
  simp [takeReport, after]

namespace Build

/-- Keyword values are kept, rules are added behind those there are, and problems are recorded
behind those there are, whatever these are. -/
structure Grows (c : Build α) : Prop where
  keywords (s : Session) : (c.run s).2.keywords = s.keywords
  rules (s : Session) : s.rules.rules <+: (c.run s).2.rules.rules
  after (s : Session) (r : Report) : c.run (s.after r) = ((c.run s).1, (c.run s).2.after r)

theorem grows_pure (a : α) : Grows (pure a : Build α) where
  keywords _ := rfl
  rules _ := List.prefix_rfl
  after _ _ := rfl

theorem Grows.bind {c : Build α} {f : α → Build β} (hc : Grows c) (hf : ∀ a, Grows (f a)) :
    Grows (c >>= f) where
  keywords s := ((hf _).keywords _).trans (hc.keywords s)
  rules s := (hc.rules s).trans ((hf _).rules _)
  after s r := by
    rw [run_bind, hc.after s r]
    exact (hf _).after _ r

/-- A session may be looked at as long as nothing depends on the recorded problems. -/
theorem grows_get_bind {f : Session → Build β} (hf : ∀ s, Grows (f s))
    (hafter : ∀ s r, f (s.after r) = f s) : Grows ((get : Build Session) >>= f) where
  keywords s := (hf s).keywords s
  rules s := (hf s).rules s
  after s r := by
    change (f (s.after r)).run (s.after r) = _
    rw [hafter]
    exact (hf s).after s r

theorem grows_modify {f : Session → Session} (hkeywords : ∀ s, (f s).keywords = s.keywords)
    (hrules : ∀ s, s.rules.rules <+: (f s).rules.rules)
    (hafter : ∀ s r, f (s.after r) = (f s).after r) : Grows (modify f : Build PUnit) where
  keywords := hkeywords
  rules := hrules
  after s r := congrArg (Prod.mk PUnit.unit) (hafter s r)

theorem grows_each {step : α → Build β} (h : ∀ a, Grows (step a)) (l : List α) :
    Grows (Build.each step l) := by
  induction l with
  | nil => exact grows_pure []
  | cons a l ih => exact (h a).bind fun b => ih.bind fun bs => grows_pure (b :: bs)

theorem Composed.grows {c : Build α} (hc : c.Composed) : Grows c where
  keywords s := by
    rw [hc.composes s]
    rfl
  rules s := by
    rw [hc.composes s]
    exact List.prefix_rfl
  after s r := by
    rw [hc.composes, hc.composes s]
    simp [Session.after, Session.addErrors]

/-- What was recorded stays recorded. -/
theorem Grows.errors {c : Build α} (hc : Grows c) (s : Session) :
    s.errors <+: (c.run s).2.errors := by
  rw [← s.after_takeReport, hc.after]
  simp [Session.after, Session.takeReport]

theorem Grows.warnings {c : Build α} (hc : Grows c) (s : Session) :
    s.warnings <+: (c.run s).2.warnings := by
  rw [← s.after_takeReport, hc.after]
  simp [Session.after, Session.takeReport]

end Build

/-! ## Targets -/

theorem Session.grows_addError (p : Problem) : Grows (modify (·.addError p) : Build PUnit) :=
  grows_modify (fun _ => rfl) (fun _ => List.prefix_rfl) fun s r => by
    simp [Session.after, Session.addError]

theorem Session.grows_addWarnings (ps : List Problem) :
    Grows (modify (·.addWarnings ps) : Build PUnit) :=
  grows_modify (fun _ => rfl) (fun _ => List.prefix_rfl) fun s r => by
    simp [Session.after, Session.addWarnings]

theorem Deploy.Destination.grows_obtain (path : String) {template : Build String}
    (htemplate : Grows template) : Grows (obtain path template) := by
  refine grows_get_bind (fun s => ?_) fun s r => rfl
  split
  · exact grows_get_bind (fun s => grows_pure _) fun s r => rfl
  · refine htemplate.bind fun dst => grows_get_bind (fun s => ?_) fun s r => rfl
    split
    · exact grows_pure _
    · next files _ =>
        have hfiles : Grows (modify fun s => { s with files } : Build PUnit) :=
          grows_modify (fun _ => rfl) (fun _ => List.prefix_rfl) fun s r => rfl
        exact hfiles.bind fun _ => grows_pure _

theorem Deployment.grows_edges (t : Deployment) : Grows t.edges := by
  refine (Template.composed_pathIn _ _).grows.bind fun config => ?_
  refine (Destination.grows_obtain config (Template.composed_compose _).grows).bind fun r => ?_
  refine (Session.grows_addWarnings _).bind fun _ => ?_
  cases r with
  | error e => exact (Session.grows_addError _).bind fun _ => grows_pure []
  | ok destination =>
      simp only
      split
      · exact grows_pure []
      · exact (Template.composed_pathIn _ _).grows.bind fun _ =>
          (Template.composed_pathWithSuffix _ _).grows.bind fun _ => grows_pure _

theorem Target.grows_edges (t : Target) : Grows t.edges := by
  obtain hcomposed | ⟨u, rfl⟩ := t.composed_or_rsync
  · exact hcomposed.grows
  · exact u.grows_edges

/-! ## Rules -/

theorem Session.grows_register (rule : Rule) :
    Grows (modify (·.register rule) : Build PUnit) := by
  refine grows_modify (fun s => s.keywords_register rule) (fun s => ?_) fun s r => ?_
  · rw [s.rules_register]
    exact s.rules.rules_prefix_register rule
  · have hrules : (s.after r).rules = s.rules := rfl
    unfold register
    rw [hrules]
    rcases s.rules.register rule with ⟨_ | _ | _, rules⟩
    · rfl
    · rfl
    · simp [after, addError]

theorem RuleTemplate.grows_register (r : RuleTemplate) : Grows r.register :=
  r.composed_compose.grows.bind fun _ => Session.grows_register _

theorem Target.Kind.grows_registerBuiltin (k : Kind) : Grows k.registerBuiltin := by
  refine k.registerBuiltin_induction (grows_pure ()) ?_ RuleTemplate.grows_register
  intro name c hc
  refine grows_get_bind (fun s => ?_) fun s r => rfl
  split
  · exact grows_pure ()
  · exact hc

/-! ## Descriptions -/

namespace Description

theorem grows_registerRules (d : Description) : Grows d.registerRules :=
  (grows_each RuleTemplate.grows_register d.rules).bind fun _ =>
    (grows_each (fun t : Target => t.kind.grows_registerBuiltin) d.targets).bind fun _ =>
      grows_pure ()

theorem grows_outline (d : Description) : Grows d.outline :=
  d.grows_registerRules.bind fun _ => (grows_each Target.grows_edges d.targets).bind fun _ =>
    grows_get_bind (fun _ => grows_pure _) fun _ _ => rfl

theorem grows_withRegeneration (outline : Graph) : Grows (withRegeneration outline) := by
  refine grows_get_bind (fun s => ?_) fun s r => rfl
  split
  · exact grows_pure outline
  · exact (Target.Kind.grows_registerBuiltin .regen).bind fun _ =>
      (Regeneration.composed_edge {}).grows.bind fun _ =>
        grows_get_bind (fun _ => grows_pure _) fun _ _ => rfl

theorem grows_graph (d : Description) : Grows d.graph :=
  d.grows_outline.bind fun outline => (grows_withRegeneration outline).bind fun _ =>
    (Session.grows_addWarnings _).bind fun _ => grows_pure _

end Description

/-! ## Operations -/

namespace Session

/-- What a session is used for, with all arguments. -/
inductive Operation where
  | compose (t : Template)
  | composeFragments (fs : List Fragment)
  | composeOption (t : Option Template)
  | composeWords (ts : List Template)
  | composeRows (rows : List (List Template))
  | pathIn (base name : Template)
  | pathsIn (base : Template) (names : List Template)
  | register (rule : Rule)
  | registerRules (d : Description)
  | registerBuiltin (k : Target.Kind)
  | edges (t : Target)
  | outline (d : Description)
  | graph (d : Description)

/-- An operation without its result. -/
def Operation.perform : Operation → Build Unit
  | .compose t => discard t.compose
  | .composeFragments fs => discard (Fragment.composeAll fs)
  | .composeOption t => discard (Template.composeOption t)
  | .composeWords ts => discard (Template.composeWords ts)
  | .composeRows tss => discard (Template.composeRows tss)
  | .pathIn base name => discard (Template.pathIn base name)
  | .pathsIn base names => discard (Template.pathsIn base names)
  | .register rule => modify (·.register rule)
  | .registerRules d => d.registerRules
  | .registerBuiltin k => k.registerBuiltin
  | .edges t => discard t.edges
  | .outline d => discard d.outline
  | .graph d => discard d.graph

/-- Operations one after the other. -/
def perform : List Operation → Build Unit
  | [] => pure ()
  | op :: ops => do
    op.perform
    perform ops

theorem Operation.grows_perform (op : Operation) : Grows op.perform := by
  have unit {γ : Type} {c : Build γ} (hc : Grows c) : Grows (discard c) :=
    hc.bind fun _ => grows_pure ()
  cases op with
  | compose t => exact unit t.composed_compose.grows
  | composeFragments fs => exact unit (Fragment.composed_composeAll fs).grows
  | composeOption t => exact unit (Template.composed_composeOption t).grows
  | composeWords ts => exact unit (Template.composed_composeWords ts).grows
  | composeRows tss => exact unit (Template.composed_composeRows tss).grows
  | pathIn base name => exact unit (Template.composed_pathIn base name).grows
  | pathsIn base names => exact unit (Template.composed_pathsIn base names).grows
  | register rule => exact grows_register rule
  | registerRules d => exact d.grows_registerRules
  | registerBuiltin k => exact k.grows_registerBuiltin
  | edges t => exact unit t.grows_edges
  | outline d => exact unit d.grows_outline
  | graph d => exact unit d.grows_graph

theorem grows_perform (ops : List Operation) : Grows (perform ops) := by
  induction ops with
  | nil => exact grows_pure ()
  | cons op ops ih => exact op.grows_perform.bind fun _ => ih

/-- What an operation records in a session: the problems after it that stand behind those
before. -/
def Operation.report (op : Operation) (s : Session) : Report :=
  let reached := (op.perform.run s).2
  { errors := reached.errors.drop s.errors.length
    warnings := reached.warnings.drop s.warnings.length }

/-- What each operation of a sequence records. -/
def reports : List Operation → Session → List Report
  | [], _ => []
  | op :: ops, s => op.report s :: reports ops (op.perform.run s).2

/-- What an operation records stands behind what was recorded before. -/
theorem Operation.append_report (op : Operation) (s : Session) :
    s.errors ++ (op.report s).errors = (op.perform.run s).2.errors
      ∧ s.warnings ++ (op.report s).warnings = (op.perform.run s).2.warnings :=
  ⟨List.prefix_iff_eq_append.1 (op.grows_perform.errors s),
    List.prefix_iff_eq_append.1 (op.grows_perform.warnings s)⟩

/-- The problems after a sequence of operations are those before, and then what each operation
recorded. -/
theorem append_reports (ops : List Operation) (s : Session) :
    s.errors ++ (reports ops s).flatMap (·.errors) = ((perform ops).run s).2.errors
      ∧ s.warnings ++ (reports ops s).flatMap (·.warnings) = ((perform ops).run s).2.warnings := by
  induction ops generalizing s with
  | nil => exact ⟨List.append_nil _, List.append_nil _⟩
  | cons op ops ih =>
      obtain ⟨herrors, hwarnings⟩ := op.append_report s
      obtain ⟨hrest, hrest'⟩ := ih (op.perform.run s).2
      rw [reports, List.flatMap_cons, List.flatMap_cons, ← List.append_assoc, herrors,
        ← List.append_assoc, hwarnings]
      exact ⟨hrest, hrest'⟩

/-- A session holds everything that another one holds, and more only behind it. -/
structure Continues (s s' : Session) : Prop where
  keywords : s'.keywords = s.keywords
  errors : s.errors <+: s'.errors
  warnings : s.warnings <+: s'.warnings
  rules : s.rules.rules <+: s'.rules.rules

/-- Between two reports a session only grows, and the edges of a target bring in no rule.  A report
leaves no problems, and the rules and keyword values as they are.  The next one holds exactly what
the operations since then recorded, in their order; it is a success if none of them recorded an
error. -/
theorem takeReport_since (ops : List Operation) (s : Session) :
    s.Continues ((perform ops).run s).2
      ∧ (∀ t : Target, (t.edges.run s).2.rules = s.rules)
      ∧ let flushed := s.takeReport.2
        let since := reports ops flushed
        let reached := ((perform ops).run flushed).2
        flushed = { s with errors := [], warnings := [] }
          ∧ reached.takeReport.1.errors = since.flatMap (·.errors)
          ∧ reached.takeReport.1.warnings = since.flatMap (·.warnings)
          ∧ reached.takeReport.2 = { reached with errors := [], warnings := [] }
          ∧ (reached.takeReport.1.succeeded = true ↔ ∀ r ∈ since, r.errors = []) := by
  have hgrows := grows_perform ops
  refine ⟨⟨hgrows.keywords s, hgrows.errors s, hgrows.warnings s, hgrows.rules s⟩,
    fun t => congrArg Prod.snd (t.keeps_edges apart_setting s), ?_⟩
  intro flushed since reached
  obtain ⟨herrors, hwarnings⟩ := append_reports ops flushed
  have hreport : reached.takeReport.1.errors = since.flatMap (·.errors) := herrors.symm
  refine ⟨rfl, hreport, hwarnings.symm, rfl, ?_⟩
  rw [Report.succeeded, List.isEmpty_iff, hreport, List.flatMap_eq_nil_iff]

/-- A report takes an error and a warning away.  The next one holds what came up since: a name that
is no keyword, a rule with a taken name, and an output that a graph declares twice. -/
theorem takeReport_since_first_report :
    let rule (command : String) : Rule := { name := "make", commands := [[command]] }
    let d : Description := {
      targets := [.core { inputs := [], outputs := ["a", "a"], rule := "make" },
        .copy { inputs := [.literal "x"] }] }
    let ops : List Operation := [.compose (.composed [.unknown "OUPUT_DIR"]),
      .register (rule "cc"), .register (rule "clang"), .graph d]
    let s : Session := { Session.ofInvocation "/site" "HAGA.lua" "/usr/bin/haga" {} {} with
      errors := [.ruleConflict "link"]
      warnings := [.unnameableInput "a b"] }
    let first := s.takeReport
    let reached := ((perform ops).run first.2).2
    let second := reached.takeReport
    first.1 = { errors := [.ruleConflict "link"], warnings := [.unnameableInput "a b"] }
      ∧ second.1.errors = [.missingKeyword "OUPUT_DIR", .ruleConflict "make"]
      ∧ second.1.warnings = [.repeatedOutput "a"]
      ∧ second.1.succeeded = false
      ∧ second.2.errors = [] ∧ second.2.warnings = []
      ∧ second.2.rules.rules.map (·.name) = ["make", "copy", "regen"] := by
  intro rule d ops s first reached second
  obtain ⟨-, -, -, herrors, hwarnings, hleft, -⟩ := takeReport_since ops s
  refine ⟨rfl, herrors.trans ?_, hwarnings.trans ?_, ?_, congrArg errors hleft,
    congrArg warnings hleft, ?_⟩
  all_goals decide +kernel

end Session

end BuildGraph
