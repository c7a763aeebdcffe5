import BuildGraph.Description.Graph
import BuildGraph.Proofs.TargetEdges

/-!
# Names of rules

Registering a rule takes its name and gives no name up, whether the rule is added or not.  So
after the rules of a description are registered the names in use are those that were in use
before, those of the description's own rules and those of the kinds of its targets
(`Description.takes_registerRules`).  The targets themselves register nothing.
-/

namespace BuildGraph

open Build

/-! ## Single registrations -/

namespace Registry

theorem get?_eq_none_of_rules_eq_nil {r : Registry} (h : r.rules = []) (name : String) :
    r.get? name = none := by
  rw [get?_eq_find?, h, List.find?_nil]

/-- A registration keeps every rule that is held, at its place. -/
theorem rules_prefix_register (r : Registry) (rule : Rule) :
    r.rules <+: (r.register rule).2.rules := by
  cases h : r.get? rule.name with
  | none =>
      rw [register_of_get?_eq_none h, rules_push]
      exact List.prefix_append _ _
  | some held => simp [register_of_get?_eq_some h]

/-- The names that are taken after a registration. -/
theorem contains_register (r : Registry) (rule : Rule) (name : String) :
    (r.register rule).2.contains name = true ↔ r.contains name = true ∨ rule.name = name := by
  cases h : r.get? rule.name with
  | none =>
      rw [register_of_get?_eq_none h]
      simp only [contains_eq_isSome_get?, get?_eq_find?, rules_push, List.find?_append,
        Option.isSome_or,
        Bool.or_eq_true, List.find?_singleton, beq_iff_eq]
      by_cases hn : rule.name = name <;> simp [hn]
  | some held =>
      rw [register_of_get?_eq_some h]
      constructor
      · exact .inl
      · rintro (h' | rfl)
        · exact h'
        · rw [contains_eq_isSome_get?, h, Option.isSome_some]

end Registry

namespace Session

/-- Registering a rule changes the registry as the registry says. -/
theorem rules_register (s : Session) (rule : Rule) :
    (s.register rule).rules = (s.rules.register rule).2 := by
  unfold register
  rcases s.rules.register rule with ⟨_ | _ | _, rules⟩ <;> rfl

theorem keywords_register (s : Session) (rule : Rule) :
    (s.register rule).keywords = s.keywords := by
  unfold register
  rcases s.rules.register rule with ⟨_ | _ | _, rules⟩ <;> rfl

theorem knows_register (s : Session) (rule : Rule) (name : String) :
    (s.register rule).knows name = true ↔ s.knows name = true ∨ rule.name = name := by
  rw [knows, rules_register, Registry.contains_register, knows]

end Session

theorem RuleTemplate.run_register (r : RuleTemplate) (s : Session) :
    r.register.run s = ((), (r.compose.run s).2.register (r.compose.run s).1) := rfl

theorem RuleTemplate.name_compose (r : RuleTemplate) :
    Yields (fun rule => rule.name = r.name) r.compose :=
  yields_bind fun _ => yields_bind fun _ => yields_pure rfl

/-! ## Names after a computation -/

namespace Build

variable {α β : Type}

/-- A computation leaves the keyword values as they are and takes the names of a set. -/
structure Takes (names : String → Prop) (c : Build α) : Prop where
  keywords : Keeps Session.keywords c
  knows (s : Session) (name : String) :
    (c.run s).2.knows name = true ↔ s.knows name = true ∨ names name

theorem Takes.congr {p q : String → Prop} {c : Build α} (hc : Takes p c)
    (h : ∀ name, p name ↔ q name) : Takes q c where
  keywords := hc.keywords
  knows s name := by rw [hc.knows, h]

theorem takes_pure (a : α) : Takes (fun _ => False) (pure a : Build α) where
  keywords := keeps_pure _ a
  knows _ _ := by rw [run_pure, or_false]

theorem Takes.bind {p q : String → Prop} {c : Build α} {f : α → Build β} (hc : Takes p c)
    (hf : ∀ a, Takes q (f a)) : Takes (fun name => p name ∨ q name) (c >>= f) where
  keywords := hc.keywords.bind fun a => (hf a).keywords
  knows s name := by rw [run_bind, (hf _).knows, hc.knows, or_assoc]

theorem takes_each {p : α → String → Prop} {step : α → Build β} (h : ∀ a, Takes (p a) (step a))
    (l : List α) : Takes (fun name => ∃ a ∈ l, p a name) (Build.each step l) := by
  induction l with
  | nil => exact (takes_pure []).congr (by simp)
  | cons a l ih =>
      exact ((h a).bind fun b => ih.bind fun bs => takes_pure (b :: bs)).congr (by simp)

/-- A computation that changes neither keyword values nor rules takes no name. -/
theorem Keeps.takes {c : Build α} (h : Keeps Session.setting c) : Takes (fun _ => False) c where
  keywords s := congrArg Prod.fst (h s)
  knows s name := by
    have hr : (c.run s).2.rules = s.rules := congrArg Prod.snd (h s)
    rw [Session.knows, hr, or_false, Session.knows]

end Build

theorem RuleTemplate.takes_register (r : RuleTemplate) :
    Takes (fun name => r.name = name) r.register where
  keywords s := by
    rw [run_register, Session.keywords_register, r.composed_compose.composes s]
    rfl
  knows s name := by
    rw [run_register, Session.knows_register, r.name_compose s, r.composed_compose.composes s]
    rfl

theorem Target.Kind.eq_core_of_rule?_eq_none {k : Kind} (h : k.rule? = none) : k = .core := by
  cases k with
  | core => rfl
  | _ => cases h

/-- Every kind whose edges use a rule comes with one. -/
theorem Target.Kind.exists_builtin? {k : Kind} {name : String} (h : k.rule? = some name) :
    ∃ r, k.builtin? = some r ∧ r.name = name := by
  cases hb : k.builtin? with
  | none => cases k <;> simp_all [builtin?, rule?]
  | some r =>
      have hn := name_of_builtin? hb
      rw [h, Option.some.injEq] at hn
      exact ⟨r, rfl, hn.symm⟩

theorem Target.Kind.run_registerBuiltin_of_eq_some {k : Kind} {name : String}
    (h : k.rule? = some name) (s : Session) :
    k.registerBuiltin.run s = if s.knows name then ((), s) else
      match k.builtin? with
      | none => ((), s)
      | some r => r.register.run s := by
  unfold registerBuiltin
  rw [h]
  cases hk : s.knows name with
  | true => simp [hk]; rfl
  | false =>
      simp [hk]
      cases k.builtin? <;> rfl

/-- What holds of doing nothing, of registering a rule, and of doing something unless a name is in
use, holds of registering the rule of a kind. -/
theorem Target.Kind.registerBuiltin_induction {holds : Build Unit → Prop} (k : Kind)
    (hpure : holds (pure ()))
    (hunless : ∀ name c, holds c → holds (do if (← get).knows name then pure () else c))
    (hregister : ∀ r : RuleTemplate, holds r.register) : holds k.registerBuiltin := by
  unfold registerBuiltin
  cases k.rule? with
  | none => exact hpure
  | some name =>
      refine hunless name _ ?_
      cases k.builtin? with
      | none => exact hpure
      | some r => exact hregister r

/-- The built-in rule of a kind has the name that the kind's edges use. -/
theorem Target.Kind.takes_registerBuiltin (k : Kind) :
    Takes (fun name => k.rule? = some name) k.registerBuiltin := by
  cases h : k.rule? with
  | none =>
      obtain rfl := eq_core_of_rule?_eq_none h
      exact (takes_pure ()).congr (by simp)
  | some n =>
      obtain ⟨r, hr, hn⟩ := exists_builtin? h
      have run (s : Session) := run_registerBuiltin_of_eq_some h s
      simp only [hr] at run
      refine ⟨fun s => ?_, fun s name => ?_⟩
      · rw [run s]
        split
        · rfl
        · exact r.takes_register.keywords s
      · rw [run s, Option.some.injEq]
        split
        · next hk =>
            constructor
            · exact .inl
            · rintro (h' | rfl)
              · exact h'
              · exact hk
        · rw [r.takes_register.knows, hn]

/-! ## What registering leaves alone -/

/-- A view of a session that depends neither on the rules nor on the errors. -/
structure Session.BesideRules {γ : Type} (view : Session → γ) : Prop where
  errors (s : Session) (errors : List Problem) : view { s with errors } = view s
  rules (s : Session) (rules : Registry) : view { s with rules } = view s

section BesideRules

variable {γ : Type} {view : Session → γ}

theorem Session.BesideRules.register (h : BesideRules view) (s : Session) (rule : Rule) :
    view (s.register rule) = view s := by
  unfold Session.register
  rcases s.rules.register rule with ⟨_ | _ | _, rules⟩
  · exact h.rules s rules
  · exact h.rules s rules
  · exact (h.errors _ _).trans (h.rules s rules)

theorem RuleTemplate.keeps_register (h : Session.BesideRules view) (r : RuleTemplate) :
    Keeps view r.register :=
  (r.composed_compose.keeps fun s _ => h.errors s _).bind fun rule =>
    keeps_modify _ fun s => h.register s rule

theorem Target.Kind.keeps_registerBuiltin (h : Session.BesideRules view) (k : Kind) :
    Keeps view k.registerBuiltin := by
  refine k.registerBuiltin_induction (keeps_pure _ _) ?_ (RuleTemplate.keeps_register h)
  intro name c hc
  refine (keeps_get _).bind fun s => ?_
  split
  · exact keeps_pure _ _
  · exact hc

/-- Registering the rules of a description changes rules and errors only. -/
theorem Description.keeps_registerRules (h : Session.BesideRules view) (d : Description) :
    Keeps view d.registerRules :=
  (keeps_each (RuleTemplate.keeps_register h) d.rules).bind fun _ =>
    (keeps_each (fun t : Target => t.kind.keeps_registerBuiltin h) d.targets).bind fun _ =>
      keeps_pure _ _

/-- So does the edge that makes the build file. -/
theorem Description.keeps_withRegeneration (h : Session.BesideRules view) (outline : Graph) :
    Keeps view (withRegeneration outline) := by
  refine (keeps_get _).bind fun s => ?_
  split
  · exact keeps_pure _ _
  · exact (Target.Kind.regen.keeps_registerBuiltin h).bind fun _ =>
      ((Regeneration.composed_edge {}).keeps fun s _ => h.errors s _).bind fun _ =>
        (keeps_get _).bind fun _ => keeps_pure _ _

end BesideRules

/-! ## Descriptions -/

namespace Description

/-- Whether a description brings a rule of this name: one of its own, or that of a target. -/
def Brings (d : Description) (name : String) : Prop :=
  (∃ r ∈ d.rules, r.name = name) ∨ ∃ t ∈ d.targets, t.kind.rule? = some name

theorem takes_registerRules (d : Description) : Takes d.Brings d.registerRules := by
  refine ((takes_each RuleTemplate.takes_register d.rules).bind fun _ =>
    (takes_each (fun t : Target => t.kind.takes_registerBuiltin) d.targets).bind fun _ =>
      takes_pure ()).congr fun name => ?_
  rw [or_false, Brings]

/-- The names in use after the outline are those of before and those that the description
brings. -/
theorem takes_outline (d : Description) : Takes d.Brings d.outline := by
  refine (d.takes_registerRules.bind fun _ =>
    (keeps_each (Target.keeps_edges Session.apart_setting) d.targets).takes.bind fun edges =>
      (keeps_get Session.setting).takes.bind fun s =>
        takes_pure ({ rules := s.rules.rules, edges := edges.flatten } : Graph)).congr
    fun name => ?_
  rw [or_false, or_false, or_false]

theorem knows_outline {d : Description} {s : Session} (h : s.rules.rules = []) (name : String) :
    (d.outline.run s).2.knows name = true ↔ d.Brings name := by
  have hs : s.knows name = false := by
    rw [Session.knows, Registry.contains_eq_isSome_get?,
      Registry.get?_eq_none_of_rules_eq_nil h, Option.isSome_none]
  rw [d.takes_outline.knows, hs]
  simp

end Description

end BuildGraph
