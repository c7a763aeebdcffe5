import BuildGraph.Proofs.Regeneration
import Mathlib.Data.List.Forall2

/-!
# The rule table

A registry keeps the first rule of each name.  So whatever is registered one after the other, the
registry holds of the whole sequence those rules that are the first of their names
(`Rule.firsts`), and the conflicts are those rules whose names an earlier rule holds with another
body (`Rule.clashes`).

A description registers its own rules, then the built-in rules of its targets, each unless its name
is taken, and at last the built-in rule that makes the build file.  A rule that is registered
unless its name is taken never conflicts, and the registry cannot tell it from one that is always
registered.  The rules of the graph follow (`Description.rules_graph`).
-/

namespace BuildGraph

open Build

namespace Rule

/-! ## The first rules of their names -/

/-- The rules of a list that are the first of their names, in order. -/
def firsts : List Rule → List Rule
  | [] => []
  | r :: rs => r :: (firsts rs).filter (·.name ≠ r.name)

/-- The names of a list's rules. -/
def names (rs : List Rule) : List String := rs.map (·.name)

/-- The rules of a list whose names an earlier rule holds with another body, by their names;
`earlier` are the rules before the list. -/
def clashes (earlier : List Rule) : List Rule → List String
  | [] => []
  | r :: rs =>
    (match earlier.find? (·.name == r.name) with
      | some held => if held.agrees r then [] else [r.name]
      | none => []) ++ clashes (earlier ++ [r]) rs

theorem firsts_append (xs ys : List Rule) :
    firsts (xs ++ ys) = firsts xs ++ (firsts ys).filter (·.name ∉ names xs) := by
  induction xs with
  | nil => simp [firsts, names]
  | cons x xs ih =>
      have hfilter : ((firsts ys).filter (·.name ∉ names xs)).filter (·.name ≠ x.name)
          = (firsts ys).filter (·.name ∉ names (x :: xs)) := by
        rw [List.filter_filter]
        refine List.filter_congr fun r _ => ?_
        simp [names, List.mem_cons]
      rw [List.cons_append, firsts, ih, List.filter_append, hfilter, firsts, List.cons_append]

theorem nodup_names_firsts (rs : List Rule) : (names (firsts rs)).Nodup := by
  induction rs with
  | nil => exact List.nodup_nil
  | cons r rs ih =>
      rw [firsts, names, List.map_cons, List.nodup_cons]
      constructor
      · intro h
        obtain ⟨r', hr', hname⟩ := List.mem_map.1 h
        simpa [hname] using (List.mem_filter.1 hr').2
      · exact ih.sublist (List.filter_sublist.map _)

/-- Leaving out later rules of a name does not change which rule holds a name. -/
theorem find?_firsts (rs : List Rule) (name : String) :
    (firsts rs).find? (·.name == name) = rs.find? (·.name == name) := by
  induction rs with
  | nil => rfl
  | cons r rs ih =>
      by_cases h : r.name = name
      · rw [firsts, List.find?_cons_of_pos (by simpa using h),
          List.find?_cons_of_pos (by simpa using h)]
      · rw [firsts, List.find?_cons_of_neg (by simpa using h),
          List.find?_cons_of_neg (by simpa using h), List.find?_filter, ← ih]
        congr 1
        funext r'
        by_cases h' : r'.name = name
        · simp [h', Ne.symm h]
        · simp [h']

theorem mem_names_iff_find?_isSome {rs : List Rule} {name : String} :
    name ∈ names rs ↔ (rs.find? (·.name == name)).isSome = true := by
  simp [names]

theorem mem_names_firsts {rs : List Rule} {name : String} :
    name ∈ names (firsts rs) ↔ name ∈ names rs := by
  rw [mem_names_iff_find?_isSome, mem_names_iff_find?_isSome, find?_firsts]

/-- A rule of a name that is taken leaves the first rules as they are. -/
theorem firsts_concat_of_mem {rs : List Rule} {r : Rule} (h : r.name ∈ names rs) :
    firsts (rs ++ [r]) = firsts rs := by
  rw [firsts_append]
  simp [firsts, h]

theorem firsts_concat_of_not_mem {rs : List Rule} {r : Rule} (h : r.name ∉ names rs) :
    firsts (rs ++ [r]) = firsts rs ++ [r] := by
  rw [firsts_append]
  simp [firsts, h]

end Rule

/-- A rule template with the texts that its templates stand for. -/
def RuleTemplate.ruleAt (r : RuleTemplate) (values : KeywordValues) : Rule :=
  r.compose.valueAt values

theorem RuleTemplate.name_ruleAt (r : RuleTemplate) (values : KeywordValues) :
    (r.ruleAt values).name = r.name := r.name_compose _

theorem RuleTemplate.ruleAt_eq (r : RuleTemplate) (values : KeywordValues) :
    r.ruleAt values = {
      name := r.name
      commands := r.commands.map (·.map (Template.textAt · values))
      description := r.description.map (Template.textAt · values)
      generator := r.generator
      restat := r.restat } := by
  rw [ruleAt, compose, (Template.composed_composeRows _).valueAt_bind fun _ =>
      (Template.composed_composeOption _).bind fun _ => .pure _,
    (Template.composed_composeOption _).valueAt_bind fun _ => .pure _, valueAt_pure,
    Template.valueAt_composeRows, Template.valueAt_composeOption]

theorem RuleTemplate.commands_ruleAt (r : RuleTemplate) (values : KeywordValues) :
    (r.ruleAt values).commands = r.commands.map (·.map (Template.textAt · values)) := by
  rw [r.ruleAt_eq]

/-! ## Registrations one after the other -/

namespace Registry

variable {r : Registry} {registered : List Rule}

/-- Which rule holds a name can be asked of all rules that were registered. -/
theorem get?_of_rules_eq_firsts (h : r.rules = Rule.firsts registered) (name : String) :
    r.get? name = registered.find? (·.name == name) := by
  rw [get?_eq_find?, h, Rule.find?_firsts]

/-- A registry that holds the first rules of some holds the first rules of one more. -/
theorem rules_register_of_eq_firsts (h : r.rules = Rule.firsts registered) (rule : Rule) :
    (r.register rule).2.rules = Rule.firsts (registered ++ [rule]) := by
  have hget := get?_of_rules_eq_firsts h rule.name
  cases hfind : registered.find? (·.name == rule.name) with
  | none =>
      have hmem : rule.name ∉ Rule.names registered := by
        simp [Rule.mem_names_iff_find?_isSome, hfind]
      rw [register_of_get?_eq_none (hget.trans hfind), rules_push,
        Rule.firsts_concat_of_not_mem hmem, h]
  | some held =>
      have hmem : rule.name ∈ Rule.names registered := by
        simp [Rule.mem_names_iff_find?_isSome, hfind]
      rw [register_of_get?_eq_some (hget.trans hfind), Rule.firsts_concat_of_mem hmem, h]

end Registry

/-- Whether a problem is a conflict between rules. -/
def Problem.isConflict : Problem → Bool
  | .ruleConflict _ => true
  | _ => false

namespace Session

/-- The conflicts between rules that were recorded. -/
def conflicts (s : Session) : List Problem := s.errors.filter Problem.isConflict

/-- What a session has after rules were registered one after the other. -/
structure Holds (values : KeywordValues) (registered : List Rule) (conflicts : List Problem)
    (s : Session) : Prop where
  keywords_eq : s.keywords = values
  rules_eq : s.rules.rules = Rule.firsts registered
  conflicts_eq : s.conflicts = conflicts

variable {values : KeywordValues} {registered : List Rule} {found : List Problem} {s : Session}

/-- The part of a session that `Holds` is about. -/
def registration (s : Session) : KeywordValues × Registry × List Problem :=
  (s.keywords, s.rules, s.conflicts)

theorem Holds.of_registration_eq {s' : Session} (h : Holds values registered found s)
    (hs : s'.registration = s.registration) : Holds values registered found s' := by
  obtain ⟨hk, hr, hc⟩ := h
  simp only [registration, Prod.mk.injEq] at hs
  obtain ⟨hsk, hsr, hsc⟩ := hs
  exact ⟨hsk.trans hk, by rw [hsr, hr], hsc.trans hc⟩

theorem conflicts_addError_of_not_isConflict (s : Session) {p : Problem}
    (h : p.isConflict = false) : (s.addError p).conflicts = s.conflicts := by
  rw [conflicts, addError, List.filter_append, List.filter_cons_of_neg (by simp [h]),
    List.filter_nil, List.append_nil, conflicts]

theorem registration_addError_of_not_isConflict (s : Session) {p : Problem}
    (h : p.isConflict = false) : (s.addError p).registration = s.registration := by
  rw [registration, s.conflicts_addError_of_not_isConflict h]
  rfl

theorem apart_registration : Apart registration where
  missing s _ := s.registration_addError_of_not_isConflict rfl
  unusable s _ := s.registration_addError_of_not_isConflict rfl
  warned _ _ := rfl
  written _ _ := rfl

theorem Holds.get?_eq (h : Holds values registered found s) (name : String) :
    s.rules.get? name = registered.find? (·.name == name) :=
  Registry.get?_of_rules_eq_firsts h.rules_eq name

theorem Holds.knows_iff (h : Holds values registered found s) (name : String) :
    s.knows name = true ↔ name ∈ Rule.names registered := by
  rw [knows, Registry.contains_eq_isSome_get?, h.get?_eq, Rule.mem_names_iff_find?_isSome]

/-- One more rule is registered. -/
theorem Holds.register (h : Holds values registered found s) (r : Rule) :
    Holds values (registered ++ [r])
      (found ++ (Rule.clashes registered [r]).map .ruleConflict) (s.register r) := by
  refine ⟨(s.keywords_register r).trans h.keywords_eq, ?rules, ?conflicts⟩
  case rules =>
    rw [rules_register]
    exact Registry.rules_register_of_eq_firsts h.rules_eq r
  case conflicts =>
    have hget := h.get?_eq r.name
    cases hfind : registered.find? (·.name == r.name) with
    | none =>
        rw [Session.register, Registry.register_of_get?_eq_none (hget.trans hfind)]
        show s.conflicts = _
        simpa [Rule.clashes, hfind] using h.conflicts_eq
    | some held =>
        rw [Session.register, Registry.register_of_get?_eq_some (hget.trans hfind)]
        by_cases hagrees : held.agrees r = true
        · rw [if_pos hagrees]
          simpa [Rule.clashes, hfind, hagrees] using h.conflicts_eq
        · rw [if_neg hagrees]
          have hconflicts : (s.addError (.ruleConflict r.name)).conflicts
              = s.conflicts ++ [.ruleConflict r.name] := by
            rw [conflicts, addError, List.filter_append, conflicts]
            rfl
          show (s.addError (.ruleConflict r.name)).conflicts = _
          rw [hconflicts, h.conflicts_eq]
          simp [Rule.clashes, hfind, hagrees]

/-- Composing a rule registers nothing and records no conflict. -/
theorem Holds.register_template (h : Holds values registered found s) (r : RuleTemplate) :
    Holds values (registered ++ [r.ruleAt values])
      (found ++ (Rule.clashes registered [r.ruleAt values]).map .ruleConflict)
      (r.register.run s).2 := by
  have hrun := r.composed_compose.composes s
  have hcomposed : Holds values registered found (r.compose.run s).2 :=
    h.of_registration_eq (r.composed_compose.keeps apart_registration.missing s)
  rw [r.run_register, show (r.compose.run s).1 = r.ruleAt values by
    rw [hrun, ← h.keywords_eq]; rfl]
  exact hcomposed.register _

/-- Rules are registered one after the other. -/
theorem Holds.register_each (h : Holds values registered found s) (rs : List RuleTemplate) :
    Holds values (registered ++ rs.map (·.ruleAt values))
      (found ++ (Rule.clashes registered (rs.map (·.ruleAt values))).map .ruleConflict)
      ((Build.each RuleTemplate.register rs).run s).2 := by
  induction rs generalizing registered found s with
  | nil =>
      rw [List.map_nil, Rule.clashes, List.map_nil, List.append_nil, List.append_nil]
      exact h
  | cons r rs ih =>
      have hstep := ih (h.register_template r)
      have hclashes : Rule.clashes registered ((r :: rs).map (·.ruleAt values))
          = Rule.clashes registered [r.ruleAt values]
            ++ Rule.clashes (registered ++ [r.ruleAt values]) (rs.map (·.ruleAt values)) := by
        simp [Rule.clashes]
      rw [hclashes, List.map_append, ← List.append_assoc, List.map_cons, List.append_cons]
      exact hstep

/-- A rule that is registered unless its name is taken conflicts with none, and the registry is as
if it had been registered in any case. -/
theorem Holds.register_builtin (h : Holds values registered found s) (k : Target.Kind) :
    Holds values (registered ++ (k.builtin?.map (·.ruleAt values)).toList) found
      (k.registerBuiltin.run s).2 := by
  cases hname : k.rule? with
  | none =>
      obtain rfl := Target.Kind.eq_core_of_rule?_eq_none hname
      rw [Target.Kind.builtin?, Option.map_none, Option.toList_none, List.append_nil]
      exact h
  | some name =>
      obtain ⟨r, hr, hrname⟩ := Target.Kind.exists_builtin? hname
      have hrule : (r.ruleAt values).name = name := (r.name_ruleAt values).trans hrname
      rw [Target.Kind.run_registerBuiltin_of_eq_some hname, hr, Option.map_some, Option.toList_some]
      split
      · next hknows =>
          have hmem : (r.ruleAt values).name ∈ Rule.names registered := by
            rw [hrule]
            exact (h.knows_iff name).1 hknows
          exact ⟨h.keywords_eq, by rw [Rule.firsts_concat_of_mem hmem, h.rules_eq],
            h.conflicts_eq⟩
      · next hknows =>
          have hmem : name ∉ Rule.names registered := fun hmem =>
            hknows ((h.knows_iff name).2 hmem)
          have hfree : registered.find? (·.name == (r.ruleAt values).name) = none := by
            rw [hrule, ← Option.not_isSome_iff_eq_none, ← Rule.mem_names_iff_find?_isSome]
            exact hmem
          have hstep := h.register_template r
          simpa [Rule.clashes, hfree] using hstep

theorem Holds.register_builtins (h : Holds values registered found s) (ts : List Target) :
    Holds values
      (registered ++ (ts.filterMap (·.kind.builtin?)).map (·.ruleAt values)) found
      ((Build.each (fun t : Target => t.kind.registerBuiltin) ts).run s).2 := by
  induction ts generalizing registered s with
  | nil =>
      rw [List.filterMap_nil, List.map_nil, List.append_nil]
      exact h
  | cons t ts ih =>
      have hstep := ih (h.register_builtin t.kind)
      have hsplit : ((t :: ts).filterMap (·.kind.builtin?)).map (·.ruleAt values)
          = (t.kind.builtin?.map (·.ruleAt values)).toList
            ++ (ts.filterMap (·.kind.builtin?)).map (·.ruleAt values) := by
        cases hk : t.kind.builtin? <;> simp [hk]
      rw [hsplit, ← List.append_assoc]
      exact hstep

end Session

/-! ## The edges of targets -/

namespace Build

variable {α β : Type}

/-- Each result of a loop belongs to its item. -/
theorem forall₂_each {p : α → β → Prop} {step : α → Build β} {l : List α}
    (h : ∀ a ∈ l, Yields (p a) (step a)) : Yields (List.Forall₂ p l) (Build.each step l) := by
  induction l with
  | nil => exact yields_pure .nil
  | cons a l ih =>
      obtain ⟨ha, hl⟩ := List.forall_mem_cons.1 h
      exact ha.bind fun b hb => (ih hl).bind fun bs hbs => yields_pure (.cons hb hbs)

end Build

/-- Wiring changes nothing of an edge that waiting for others and being fed leave as it is. -/
theorem Graph.Wired.map_view {γ : Type} {view : Edge → γ}
    (hafter : ∀ regen e, view (Edge.after regen e) = view e)
    (hfed : ∀ files e, view (Edge.fedBy files e) = view e) {edges wired : List Edge}
    (h : Wired edges wired) : wired.map view = edges.map view := by
  cases h with
  | alone => rfl
  | around => simp [Function.comp_def, hafter, hfed]

/-- Wiring changes the rule of no edge. -/
theorem Graph.Wired.map_rule {edges wired : List Edge} (h : Wired edges wired) :
    wired.map (·.rule) = edges.map (·.rule) :=
  h.map_view Edge.rule_after fun _ _ => rfl

/-! ## Descriptions -/

namespace Description

/-- The rules of a description, with the texts that their templates stand for. -/
def ownRules (d : Description) (values : KeywordValues) : List Rule :=
  d.rules.map (·.ruleAt values)

/-- The built-in rules of a description's targets, target by target. -/
def builtinRules (d : Description) (values : KeywordValues) : List Rule :=
  (d.targets.filterMap (·.kind.builtin?)).map (·.ruleAt values)

/-- The built-in rule that makes the build file. -/
def regenRule (values : KeywordValues) : List Rule :=
  (Target.Kind.regen.builtin?.map (·.ruleAt values)).toList

/-- The first of a description's rules of each name, then the built-in rules of its targets in
order of their first use, those left out whose names are taken, and at last the built-in rule that
makes the build file where its name is not taken. -/
def ruleTable (d : Description) (values : KeywordValues) : List Rule :=
  let own := Rule.firsts (d.ownRules values)
  let used := (Rule.firsts (d.builtinRules values)).filter (·.name ∉ Rule.names own)
  own ++ used ++ (regenRule values).filter (·.name ∉ Rule.names (own ++ used))

/-- The edges of each target of a description, before they are wired. -/
def edgesByTarget (d : Description) (s : Session) : List (List Edge) :=
  ((Build.each Target.edges d.targets).run (d.registerRules.run s).2).1

theorem ruleTable_eq_firsts (d : Description) (values : KeywordValues) :
    d.ruleTable values
      = Rule.firsts (d.ownRules values ++ d.builtinRules values ++ regenRule values) := by
  have hregen : Rule.firsts (regenRule values) = regenRule values := rfl
  have hused : Rule.firsts (d.ownRules values ++ d.builtinRules values)
      = Rule.firsts (d.ownRules values) ++ (Rule.firsts (d.builtinRules values)).filter
        (·.name ∉ Rule.names (Rule.firsts (d.ownRules values))) := by
    simp only [Rule.firsts_append, Rule.mem_names_firsts]
  rw [ruleTable, ← hused, Rule.firsts_append _ (regenRule values), hregen]
  simp only [Rule.mem_names_firsts]

variable {d : Description} {s : Session}

/-- What is registered before the targets are looked at. -/
theorem holds_registerRules (d : Description) (h : s.rules.rules = []) :
    Session.Holds s.keywords (d.ownRules s.keywords ++ d.builtinRules s.keywords)
      (s.conflicts ++ (Rule.clashes [] (d.ownRules s.keywords)).map .ruleConflict)
      (d.registerRules.run s).2 := by
  have hstart : Session.Holds s.keywords [] s.conflicts s := ⟨rfl, h, rfl⟩
  have hown := hstart.register_each d.rules
  rw [List.nil_append] at hown
  exact hown.register_builtins d.targets

theorem holds_outline (d : Description) (h : s.rules.rules = []) :
    Session.Holds s.keywords (d.ownRules s.keywords ++ d.builtinRules s.keywords)
      (s.conflicts ++ (Rule.clashes [] (d.ownRules s.keywords)).map .ruleConflict)
      (d.outline.run s).2 :=
  (d.holds_registerRules h).of_registration_eq
    (keeps_each (Target.keeps_edges Session.apart_registration) d.targets _)

/-- The rules of an outline are those that are registered. -/
theorem rules_outline (d : Description) (s : Session) :
    (d.outline.run s).1.rules = (d.outline.run s).2.rules.rules := rfl

/-- The built-in rule is registered and the built-in edge composed, or nothing is done. -/
theorem holds_withRegeneration {values : KeywordValues} {registered : List Rule}
    {found : List Problem} (h : Session.Holds values registered found s) {outline : Graph}
    (ho : outline.rules = s.rules.rules) :
    ((withRegeneration outline).run s).1.rules = Rule.firsts (registered ++ regenRule values)
      ∧ ((withRegeneration outline).run s).2.conflicts = found := by
  have hstep := h.register_builtin .regen
  cases hknows : s.knows Rule.regenName with
  | true =>
      have hrun : Target.Kind.regen.registerBuiltin.run s = ((), s) := by
        rw [Target.Kind.run_registerBuiltin_of_eq_some rfl s]
        exact if_pos hknows
      rw [hrun] at hstep
      rw [withRegeneration_of_knows hknows]
      exact ⟨ho.trans hstep.rules_eq, hstep.conflicts_eq⟩
  | false =>
      have hedge := hstep.of_registration_eq
        ((Regeneration.composed_edge {}).keeps Session.apart_registration.missing _)
      rw [run_withRegeneration, if_neg (by simp [hknows])]
      exact ⟨hedge.rules_eq, hedge.conflicts_eq⟩

/-- The edges of the targets are the last of the graph, with all that waiting for others and being
fed leave as it is. -/
theorem map_suffix_graph {γ : Type} {view : Edge → γ}
    (hafter : ∀ regen e, view (Edge.after regen e) = view e)
    (hfed : ∀ files e, view (Edge.fedBy files e) = view e) (d : Description) (s : Session) :
    (d.edgesByTarget s).flatten.map view <:+ (d.graph.run s).1.edges.map view := by
  let outlined := (d.outline.run s).2
  let complete := ((withRegeneration (d.outline.run s).1).run outlined).1
  have hwired : (d.graph.run s).1.edges.map view = complete.edges.map view :=
    (Graph.wired_wire complete.edges).map_view hafter hfed
  have hedges : (d.outline.run s).1.edges = (d.edgesByTarget s).flatten := rfl
  rw [hwired, ← hedges]
  cases hknows : outlined.knows Rule.regenName with
  | true =>
      have hcomplete := congrArg Prod.fst (withRegeneration_of_knows hknows (d.outline.run s).1)
      exact hcomplete ▸ List.suffix_rfl
  | false =>
      have hcomplete := edges_withRegeneration_of_not_knows hknows (d.outline.run s).1
      exact hcomplete ▸ List.suffix_cons _ _

/-- The graph of a description has just the rules of the rule table, of which no two have one name.
A rule of the description is not replaced by a built-in one.  An edge of a target that is not taken
as it is is an alias or refers to a rule of the table.  The conflicts that are recorded are those
between the description's own rules. -/
theorem rules_graph (d : Description) (h : s.rules.rules = []) :
    (d.graph.run s).1.rules = d.ruleTable s.keywords
      ∧ (Rule.names (d.ruleTable s.keywords)).Nodup
      ∧ (∀ name r, (d.ownRules s.keywords).find? (·.name == name) = some r →
          (d.graph.run s).1.rule? name = some r)
      ∧ List.Forall₂ (fun t es => t.kind ≠ .core → ∀ e ∈ es,
          e.rule = Rule.aliasName ∨ e.rule ∈ Rule.names (d.graph.run s).1.rules)
          d.targets (d.edgesByTarget s)
      ∧ (d.graph.run s).1.edges.map (·.rule)
          = (if d.declaresRegeneration then [] else [Rule.regenName])
            ++ (d.edgesByTarget s).flatten.map (·.rule)
      ∧ (d.graph.run s).2.conflicts
          = s.conflicts ++ (Rule.clashes [] (d.ownRules s.keywords)).map .ruleConflict := by
  obtain ⟨hrules, hconflicts⟩ := holds_withRegeneration (d.holds_outline h) (d.rules_outline s)
  have htable : (d.graph.run s).1.rules = d.ruleTable s.keywords :=
    hrules.trans (d.ruleTable_eq_firsts s.keywords).symm
  refine ⟨htable, ?nodup, ?own, ?closed, ?edges, hconflicts⟩
  case nodup =>
    rw [ruleTable_eq_firsts]
    exact Rule.nodup_names_firsts _
  case own =>
    intro name r hr
    rw [Graph.rule?, htable, ruleTable_eq_firsts, Rule.find?_firsts, List.append_assoc,
      List.find?_append, hr, Option.some_or]
  case closed =>
    have hclosed : ∀ t ∈ d.targets, Yields (fun es => t.kind ≠ .core → ∀ e ∈ es,
        e.rule = Rule.aliasName ∨ e.rule ∈ Rule.names (d.graph.run s).1.rules) t.edges := by
      intro t ht s' hcore e he
      rcases t.rule_of_mem_edges s' e he with rfl | hk | ⟨-, ha⟩
      · exact absurd rfl hcore
      · obtain ⟨r, hr, hname⟩ := Target.Kind.exists_builtin? hk
        refine .inr ?_
        rw [htable, ruleTable_eq_firsts, Rule.mem_names_firsts]
        have hmem : r.ruleAt s.keywords ∈ d.builtinRules s.keywords :=
          List.mem_map_of_mem (List.mem_filterMap.2 ⟨t, ht, hr⟩)
        refine List.mem_map.2 ⟨r.ruleAt s.keywords, ?_, (r.name_ruleAt _).trans hname⟩
        exact List.mem_append_left _ (List.mem_append_right _ hmem)
      · exact .inl ha
    exact forall₂_each hclosed _
  case edges =>
    rw [d.edges_graph h, (Graph.wired_wire _).map_rule, completeEdges]
    split <;> rfl

/-- The second rule named `cpp` is a conflict and the third is not, since the first holds the name.
The built-in rule of that name is left out, and those of the other targets are registered once. -/
theorem rules_graph_of_conflict :
    let rule (command : Template) : RuleTemplate := { name := "cpp", commands := [[command]] }
    let d : Description := {
      rules := [rule (.ofKeyword .clangCommand), rule (.literal "gcc"), rule (.literal "clang")]
      targets := [.copy { inputs := [] }, .cpps { inputs := [] }, .copy { inputs := [] }] }
    let s := Session.ofInvocation "/site" "HAGA.lua" "/usr/bin/haga" {} {}
    s.rules.rules = []
      ∧ Rule.names (d.graph.run s).1.rules = ["cpp", "copy", "regen"]
      ∧ (d.graph.run s).1.rule? "cpp" = some { name := "cpp", commands := [["clang"]] }
      ∧ (d.graph.run s).2.conflicts = [.ruleConflict "cpp"] := by
  intro rule d s
  have hs : s.rules.rules = [] := rfl
  obtain ⟨hrules, -, hown, -, -, hconflicts⟩ := rules_graph d hs
  refine ⟨hs, ?_, hown "cpp" _ rfl, ?_⟩
  · rw [hrules]
    decide +kernel
  · rw [hconflicts]
    decide +kernel

end Description

end BuildGraph
