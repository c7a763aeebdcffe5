import BuildGraph.Proofs.MissingNames
import BuildGraph.Proofs.Uniqueness

/-!
# Targets in another order

The targets of a description are looked at one after the other, and each has a session before it
that the earlier ones have changed: rules are registered, errors recorded, files fed to the edge
that makes the build file.  Where no target is a deployment nothing of this can be seen in the edges
of a target, which are a function of the keyword values.  So targets in another order have the same
edges in that order (`Description.edges_graph_of_undeclared`), and the errors of a graph are those
of the description's own rules and then those of the targets one by one
(`Description.exists_session_graph`): the built-in rules are composed of keywords alone and
conflict with nothing.

What is left are lists of which the order shows: the rules in order of their first use, the files
that are fed to the edge that makes the build file, and the outputs that are declared again.  They
have the same members in every order (`Description.graph_reordered`).
-/

namespace BuildGraph

open Build

/-! ## Lists in another order -/

namespace Rule

theorem firsts_sublist (rs : List Rule) : (firsts rs).Sublist rs := by
  induction rs with
  | nil => exact .slnil
  | cons r rs ih => exact (List.filter_sublist.trans ih).cons_cons r

/-- Where a name has one body only, the first rules of their names are all rules. -/
theorem mem_firsts_iff {rs : List Rule} (h : ∀ a ∈ rs, ∀ b ∈ rs, a.name = b.name → a = b)
    {r : Rule} : r ∈ firsts rs ↔ r ∈ rs := by
  constructor
  · exact fun hr => (firsts_sublist rs).mem hr
  · intro hr
    have hname : r.name ∈ names (firsts rs) := mem_names_firsts.2 (List.mem_map_of_mem hr)
    obtain ⟨first, hfirst, hsame⟩ := List.mem_map.1 hname
    rwa [h r hr first ((firsts_sublist rs).mem hfirst) hsame.symm]

theorem firsts_perm {rs rs' : List Rule} (hperm : rs.Perm rs')
    (h : ∀ a ∈ rs, ∀ b ∈ rs, a.name = b.name → a = b) : (firsts rs).Perm (firsts rs') := by
  have h' : ∀ a ∈ rs', ∀ b ∈ rs', a.name = b.name → a = b := fun a ha b hb =>
    h a (hperm.mem_iff.2 ha) b (hperm.mem_iff.2 hb)
  refine (List.perm_ext_iff_of_nodup (nodup_names_firsts rs).of_map
    (nodup_names_firsts rs').of_map).2 fun r => ?_
  rw [mem_firsts_iff h, mem_firsts_iff h', hperm.mem_iff]

end Rule

namespace Graph

theorem nodup_eraseDups : ∀ l : List String, l.eraseDups.Nodup
  | [] => List.nodup_nil
  | a :: l => by
      rw [List.eraseDups_cons, List.nodup_cons]
      exact ⟨by simp, nodup_eraseDups _⟩
termination_by l => l.length
decreasing_by exact Nat.lt_succ_of_le (List.length_filter_le _ _)

theorem eraseDups_perm {l l' : List String} (h : l.Perm l') : l.eraseDups.Perm l'.eraseDups := by
  refine (List.perm_ext_iff_of_nodup (nodup_eraseDups l) (nodup_eraseDups l')).2 fun a => ?_
  rw [List.mem_eraseDups, List.mem_eraseDups, h.mem_iff]

/-- Which outputs are declared again does not depend on the order of the edges. -/
theorem mem_repeatedOutputs_of_perm {g g' : Graph} (h : g.outputs.Perm g'.outputs) {o : String} :
    o ∈ g.repeatedOutputs ↔ o ∈ g'.repeatedOutputs := by
  rw [mem_repeatedOutputs_iff, mem_repeatedOutputs_iff, List.duplicate_iff_two_le_count,
    List.duplicate_iff_two_le_count, h.count_eq]

/-- The edge in front makes the build file and all others wait for it. -/
theorem wire_cons {regen : Edge} (h : regen.rule = Rule.regenName) (edges : List Edge) :
    wire (regen :: edges)
      = regen.fedBy (regenImplicits (regen :: edges)) :: edges.map regen.after := by
  have hregen : regen.isRegen = true := Edge.isRegen_iff.2 h
  have hfed : regen.after (regen.fedBy (regenImplicits (regen :: edges)))
      = regen.fedBy (regenImplicits (regen :: edges)) := Edge.after_of_rule_eq h
  rw [wire, List.find?_cons_of_pos hregen]
  simp only [updateFirst, hregen, if_true, addMissing_eq, List.map_cons, wait_eq_after]
  exact congrArg (· :: edges.map regen.after) hfed

end Graph

/-! ## Loops and silent computations -/

namespace Build

variable {α β : Type}

/-- A loop over composing steps has the result of each and records the errors of each. -/
theorem run_each_of_composes {step : α → Build β} {l : List α} (h : ∀ a ∈ l, (step a).Composes)
    (s : Session) : (Build.each step l).run s
      = (l.map fun a => (step a).valueAt s.keywords,
        s.addErrors (l.flatMap fun a => (step a).problemsAt s.keywords)) := by
  induction l generalizing s with
  | nil => exact congrArg (Prod.mk []) s.addErrors_nil.symm
  | cons a l ih =>
      obtain ⟨ha, hl⟩ := List.forall_mem_cons.1 h
      rw [Build.each, run_bind, ha s, run_bind, ih hl, run_pure, Session.keywords_addErrors,
        Session.addErrors_addErrors, List.map_cons, List.flatMap_cons]

end Build

/-- Where every keyword has a value, templates without other names have no missing one. -/
theorem Template.flatMap_missing_eq_nil {values : KeywordValues}
    (hvalues : ∀ k, (values k).isSome = true) {ts : List Template}
    (h : ∀ name, mentionsIn name ts = 0) : ts.flatMap (missing values) = [] := by
  rw [List.eq_nil_iff_forall_not_mem]
  intro name hname
  have hcount : (ts.flatMap (missing values)).count name = 0 := by
    rw [count_missing hvalues, h name]
  exact List.count_eq_zero.1 hcount hname

/-- A computation that reports on templates without missing names leaves the session as it is. -/
theorem Build.ReportsOn.snd_run {α : Type} {s : Session} {ts : List Template} {c : Build α}
    (hc : ReportsOn s.keywords ts c) (hvalues : ∀ k, (s.keywords k).isSome = true)
    (h : ∀ name, Template.mentionsIn name ts = 0) : (c.run s).2 = s := by
  rw [hc s rfl, Template.flatMap_missing_eq_nil hvalues h, Session.addMissing_nil]

/-! ## Built-in rules -/

namespace Target.Kind

/-- Built-in rules are made of keywords and texts. -/
theorem mentionsIn_builtin {k : Kind} {r : RuleTemplate} (h : k.builtin? = some r)
    (name : String) :
    Template.mentionsIn name (r.commands.flatten ++ r.description.toList) = 0 := by
  cases k <;> simp only [builtin?, Option.some.injEq, reduceCtorEq] at h <;> subst h <;> rfl

/-- Two built-in rules of one name are one rule. -/
theorem builtin?_inj (k k' : Kind) {r r' : RuleTemplate} (h : r ∈ k.builtin?)
    (h' : r' ∈ k'.builtin?) (hname : r.name = r'.name) : r = r' := by
  have hall : ∀ k ∈ all, ∀ k' ∈ all, ∀ r ∈ k.builtin?, ∀ r' ∈ k'.builtin?,
      r.name = r'.name → r = r' := by decide
  have hmem (k : Kind) : k ∈ all := by cases k <;> decide
  exact hall k (hmem k) k' (hmem k') r h r' h' hname

/-- Registering a built-in rule changes the rules at most. -/
theorem exists_snd_run_registerBuiltin (k : Kind) {s : Session}
    (hvalues : ∀ k, (s.keywords k).isSome = true) :
    ∃ rules, (k.registerBuiltin.run s).2 = { s with rules } := by
  cases hname : k.rule? with
  | none =>
      obtain rfl := eq_core_of_rule?_eq_none hname
      exact ⟨s.rules, rfl⟩
  | some name =>
      obtain ⟨r, hr, hrname⟩ := exists_builtin? hname
      rw [run_registerBuiltin_of_eq_some hname, hr]
      split
      · exact ⟨s.rules, rfl⟩
      · next hknows =>
          have hcomposed : (r.compose.run s).2 = s :=
            r.reportsOn_compose.snd_run hvalues (mentionsIn_builtin hr)
          have hfree : s.rules.get? (r.compose.run s).1.name = none := by
            rw [r.name_compose s, hrname, ← Option.not_isSome_iff_eq_none,
              ← Registry.contains_eq_isSome_get?]
            exact hknows
          refine ⟨s.rules.push (r.compose.run s).1, ?_⟩
          show (r.register.run s).2 = _
          rw [r.run_register, hcomposed, Session.register,
            Registry.register_of_get?_eq_none hfree]

theorem exists_snd_run_each_registerBuiltin (ts : List Target) {s : Session}
    (hvalues : ∀ k, (s.keywords k).isSome = true) :
    ∃ rules, ((Build.each (fun t : Target => t.kind.registerBuiltin) ts).run s).2
      = { s with rules } := by
  induction ts generalizing s with
  | nil => exact ⟨s.rules, rfl⟩
  | cons t ts ih =>
      obtain ⟨first, hfirst⟩ := t.kind.exists_snd_run_registerBuiltin hvalues
      obtain ⟨rules, hrules⟩ := ih (s := { s with rules := first }) hvalues
      refine ⟨rules, ?_⟩
      rw [Build.each, run_bind, hfirst]
      exact hrules

end Target.Kind

/-! ## Descriptions without deployments -/

/-- At the start of a run every keyword has a value. -/
theorem Session.isSome_invocationKeywords (cwd file command : String) (tools : Toolset)
    (k : Keyword) : (invocationKeywords cwd file command tools k).isSome = true := by
  cases k <;> rfl

theorem Target.composed_edges {t : Target} (h : t.kind ≠ .rsync) : t.edges.Composed := by
  obtain hcomposed | ⟨u, rfl⟩ := t.composed_or_rsync
  · exact hcomposed
  · exact absurd rfl h

/-- The edges of a target where the built-in edge makes the build file: they wait for it. -/
def Target.block (values : KeywordValues) (t : Target) : List Edge :=
  (t.edges.valueAt values).map (Regeneration.builtinEdge values).after

/-- The files that make the build file out of date, target by target. -/
def Target.regenFiles (values : KeywordValues) (t : Target) : List String :=
  Graph.regenImplicits (t.edges.valueAt values)

namespace Description

variable {d : Description} {s : Session}

/-- The targets one after the other, in the session that the rules leave. -/
theorem run_each_edges (hplain : ∀ t ∈ d.targets, t.kind ≠ .rsync) :
    (Build.each Target.edges d.targets).run (d.registerRules.run s).2
      = (d.targets.map (·.edges.valueAt s.keywords), (d.registerRules.run s).2.addErrors
        (d.targets.flatMap (·.edges.problemsAt s.keywords))) := by
  rw [run_each_of_composes fun t ht => (Target.composed_edges (hplain t ht)).composes,
    d.takes_registerRules.keywords s]

/-- A description that declares nothing for making the build file has the built-in edge in front,
fed with the files of all targets, and behind it the edges of each target, which wait for it. -/
theorem edges_graph_of_undeclared (hs : s.rules.rules = [])
    (hplain : ∀ t ∈ d.targets, t.kind ≠ .rsync) (hd : d.declaresRegeneration = false) :
    (d.graph.run s).1.edges
      = (Regeneration.builtinEdge s.keywords).fedBy
          (d.targets.flatMap (Target.regenFiles s.keywords))
        :: d.targets.flatMap (Target.block s.keywords) := by
  have hedges : (d.outline.run s).1.edges
      = d.targets.flatMap (·.edges.valueAt s.keywords) := by
    have hrun := congrArg Prod.fst (run_each_edges (s := s) hplain)
    exact (congrArg List.flatten hrun).trans List.flatMap_def.symm
  rw [d.edges_graph hs, completeEdges, hd, if_neg Bool.false_ne_true, hedges,
    Graph.wire_cons rfl, List.map_flatMap, Graph.regenImplicits, List.flatMap_cons,
    List.flatMap_assoc]
  rfl

/-- The errors of a graph are those of the description's own rules and then those of its targets;
the warnings that targets bring are about outputs that are declared again. -/
theorem exists_session_graph (hs : s.rules.rules = [])
    (hvalues : ∀ k, (s.keywords k).isSome = true)
    (hplain : ∀ t ∈ d.targets, t.kind ≠ .rsync) (hd : d.declaresRegeneration = false) :
    let own := ((Build.each RuleTemplate.register d.rules).run s).2
    ∃ rules, (d.graph.run s).2 = { own with
      rules
      errors := own.errors ++ d.targets.flatMap (·.edges.problemsAt s.keywords)
      warnings := own.warnings ++ (d.graph.run s).1.repeatedOutputs.map .repeatedOutput } := by
  intro own
  have hown : own.keywords = s.keywords :=
    (takes_each RuleTemplate.takes_register d.rules).keywords s
  have hknows : (d.outline.run s).2.knows Rule.regenName = false := by
    rw [Bool.eq_false_iff, Ne, knows_outline hs, ← declaresRegeneration_iff, hd]
    exact Bool.false_ne_true
  obtain ⟨used, hused⟩ := Target.Kind.exists_snd_run_each_registerBuiltin d.targets
    (s := own) (by rwa [hown])
  have houtline : (d.outline.run s).2 = Session.addErrors { own with rules := used }
      (d.targets.flatMap (·.edges.problemsAt s.keywords)) := by
    have hregistered : (d.registerRules.run s).2 = { own with rules := used } := hused
    have hrun : (d.outline.run s).2
        = ((Build.each Target.edges d.targets).run (d.registerRules.run s).2).2 := rfl
    rw [hrun, run_each_edges hplain, hregistered]
  have hkeywords : (d.outline.run s).2.keywords = s.keywords := d.takes_outline.keywords s
  obtain ⟨rules, hrules⟩ := Target.Kind.regen.exists_snd_run_registerBuiltin
    (s := (d.outline.run s).2) (by rwa [hkeywords])
  have hcomplete : ((withRegeneration (d.outline.run s).1).run (d.outline.run s).2).2
      = { (d.outline.run s).2 with rules } := by
    have hsilent : ((Regeneration.edge {}).run { (d.outline.run s).2 with rules }).2
        = { (d.outline.run s).2 with rules } :=
      (Regeneration.reportsOn_edge {}).snd_run (by rwa [hkeywords]) fun name => rfl
    rw [run_withRegeneration, if_neg (by simp [hknows]), run_bind, hrules]
    exact hsilent
  refine ⟨rules, ?_⟩
  show (((withRegeneration (d.outline.run s).1).run (d.outline.run s).2).2).addWarnings _ = _
  rw [hcomplete, houtline]
  rfl

theorem declaresRegeneration_eq_false (hrules : ∀ r ∈ d.rules, r.name ≠ Rule.regenName)
    (htargets : ∀ t ∈ d.targets, t.kind ≠ .regen) : d.declaresRegeneration = false := by
  rw [Bool.eq_false_iff, Ne, declaresRegeneration_iff]
  rintro (⟨r, hr, hname⟩ | ⟨t, ht, hkind⟩)
  · exact hrules r hr hname
  · exact htargets t ht (Target.Kind.rule?_eq_regenName_iff.1 hkind)

/-- The built-in rules of targets in another order: no two of one name differ. -/
theorem firsts_builtinRules_perm {targets : List Target} (hperm : d.targets.Perm targets)
    (values : KeywordValues) :
    (Rule.firsts (d.builtinRules values ++ regenRule values)).Perm
      (Rule.firsts ({ d with targets }.builtinRules values ++ regenRule values)) := by
  refine Rule.firsts_perm (((hperm.filterMap _).map _).append_right _) fun a ha b hb hname => ?_
  have horigin : ∀ rule ∈ d.builtinRules values ++ regenRule values,
      ∃ k : Target.Kind, ∃ r ∈ k.builtin?, rule = r.ruleAt values := by
    intro rule hrule
    rcases List.mem_append.1 hrule with hrule | hrule
    · obtain ⟨r, hr, rfl⟩ := List.mem_map.1 hrule
      obtain ⟨t, -, ht⟩ := List.mem_filterMap.1 hr
      exact ⟨t.kind, r, ht, rfl⟩
    · obtain rfl := List.mem_singleton.1 hrule
      exact ⟨.regen, _, rfl, rfl⟩
  obtain ⟨k, r, hr, rfl⟩ := horigin a ha
  obtain ⟨k', r', hr', rfl⟩ := horigin b hb
  rw [r.name_ruleAt, r'.name_ruleAt] at hname
  rw [Target.Kind.builtin?_inj k k' hr hr' hname]

/-- A description without deployments that declares nothing for making the build file, with its
targets in another order, at the start of a run.  The first edge makes the build file, with the same
implicit inputs in some order, and behind it are the edges of each target, the same ones in the
order of the targets.  The rules are the same, and so are the errors, as often as each is recorded,
and the warnings. -/
theorem graph_reordered (d : Description) {targets : List Target}
    (hperm : d.targets.Perm targets)
    (htargets : ∀ t ∈ d.targets, t.kind ≠ .rsync ∧ t.kind ≠ .regen)
    (hrules : ∀ r ∈ d.rules, r.name ≠ Rule.regenName) (cwd file command : String)
    (tools : Toolset) (files : Files) :
    let s := Session.ofInvocation cwd file command tools files
    let made := d.graph.run s
    let made' := { d with targets }.graph.run s
    let regen := Regeneration.builtinEdge s.keywords
    (∃ fed fed', fed.Perm fed'
        ∧ made.1.edges
          = { regen with implicits := fed } :: d.targets.flatMap (Target.block s.keywords)
        ∧ made'.1.edges
          = { regen with implicits := fed' } :: targets.flatMap (Target.block s.keywords))
      ∧ made.1.rules.Perm made'.1.rules
      ∧ made.2.errors.Perm made'.2.errors
      ∧ ∀ p, p ∈ made.2.warnings ↔ p ∈ made'.2.warnings := by
  intro s made made' regen
  have htargets' : ∀ t ∈ targets, t.kind ≠ .rsync ∧ t.kind ≠ .regen := fun t ht =>
    htargets t (hperm.mem_iff.2 ht)
  have hplain : ∀ t ∈ d.targets, t.kind ≠ .rsync := fun t ht => (htargets t ht).1
  have hplain' : ∀ t ∈ targets, t.kind ≠ .rsync := fun t ht => (htargets' t ht).1
  have hd : d.declaresRegeneration = false :=
    declaresRegeneration_eq_false hrules fun t ht => (htargets t ht).2
  have hd' : { d with targets }.declaresRegeneration = false :=
    declaresRegeneration_eq_false hrules fun t ht => (htargets' t ht).2
  have hedges : made.1.edges = _ := edges_graph_of_undeclared rfl hplain hd
  have hedges' : made'.1.edges = _ := edges_graph_of_undeclared rfl hplain' hd'
  have hvalues : ∀ k, (s.keywords k).isSome = true :=
    Session.isSome_invocationKeywords cwd file command tools
  obtain ⟨rules, hsession⟩ := exists_session_graph rfl hvalues hplain hd
  obtain ⟨rules', hsession'⟩ := exists_session_graph rfl hvalues hplain' hd'
  refine ⟨⟨_, _, ?fed, hedges, hedges'⟩, ?rules, ?errors, ?warnings⟩
  case fed =>
    exact (Graph.eraseDups_perm ((hperm.flatMap_right _).filter _)).append_left _
  case rules =>
    rw [d.rules_graph_eq_firsts rfl, rules_graph_eq_firsts _ rfl, List.append_assoc,
      List.append_assoc, Rule.firsts_append (d.ownRules _), Rule.firsts_append (ownRules _ _)]
    exact ((firsts_builtinRules_perm hperm _).filter _).append_left _
  case errors =>
    rw [hsession, hsession']
    exact (hperm.flatMap_right _).append_left _
  case warnings =>
    have houtputs : (d.graph.run s).1.outputs.Perm ({ d with targets }.graph.run s).1.outputs := by
      show made.1.outputs.Perm made'.1.outputs
      rw [Graph.outputs, Graph.outputs, hedges, hedges']
      exact ((hperm.flatMap_right _).flatMap_right _).append_left _
    intro p
    rw [hsession, hsession']
    simp only [List.mem_append, List.mem_map, Graph.mem_repeatedOutputs_of_perm houtputs]

/-- Two aliases with one output and one file in common, and a copied file with an unknown name: the
files that are fed to the first edge come in another order, and nothing else is different. -/
theorem graph_reordered_of_shared_output :
    let page (files : List String) : Target := .core {
      inputs := []
      outputs := ["x"]
      regenImplicits := files
      rule := Rule.aliasName }
    let copy : Target := .copy { inputs := [.composed [.unknown "NOPE"]] }
    let d : Description := { targets := [page ["a", "b"], copy, page ["b", "c"]] }
    let targets : List Target := [page ["b", "c"], page ["a", "b"], copy]
    let s := Session.ofInvocation "/site" "HAGA.lua" "/usr/bin/haga" {} {}
    let made := d.graph.run s
    let made' := { d with targets }.graph.run s
    (d.targets.Perm targets
        ∧ (∀ t ∈ d.targets, t.kind ≠ .rsync ∧ t.kind ≠ .regen)
        ∧ ∀ r ∈ d.rules, r.name ≠ Rule.regenName)
      ∧ (made.1.edges.map (·.implicits)).head? = some ["/usr/bin/haga", "a", "b", "c"]
      ∧ (made'.1.edges.map (·.implicits)).head? = some ["/usr/bin/haga", "b", "c", "a"]
      ∧ (∃ regen regen', made.1.edges = regen :: d.targets.flatMap (Target.block s.keywords)
        ∧ made'.1.edges = regen' :: targets.flatMap (Target.block s.keywords))
      ∧ made.1.rules.Perm made'.1.rules
      ∧ made.2.errors.Perm made'.2.errors
      ∧ made.2.errors = [.missingKeyword "NOPE"]
      ∧ (∀ p, p ∈ made.2.warnings ↔ p ∈ made'.2.warnings)
      ∧ made.2.warnings = [.repeatedOutput "x"] := by
  intro page copy d targets s made made'
  have hperm : d.targets.Perm targets := by decide
  have htargets : ∀ t ∈ d.targets, t.kind ≠ .rsync ∧ t.kind ≠ .regen := by decide
  have hrules : ∀ r ∈ d.rules, r.name ≠ Rule.regenName := by decide
  obtain ⟨⟨fed, fed', -, hedges, hedges'⟩, hsame, herrors, hwarnings⟩ :=
    graph_reordered d hperm htargets hrules "/site" "HAGA.lua" "/usr/bin/haga" {} {}
  exact ⟨⟨hperm, htargets, hrules⟩, by decide +kernel, by decide +kernel,
    ⟨_, _, hedges, hedges'⟩, hsame, herrors, by decide +kernel, hwarnings, by decide +kernel⟩

end Description

end BuildGraph
