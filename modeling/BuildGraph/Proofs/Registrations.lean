import BuildGraph.Proofs.RuleTable
import Mathlib.Data.Finset.Card
import Mathlib.Data.List.Induction

/-!
# Sequences of registrations

Rules that are registered one after the other leave a registry with the first rule of each name, in
order of first registration.  One registration keeps this (`Registry.rules_register_of_eq_firsts`),
so every sequence of them does (`Registry.rules_ofRules`).  Look-ups, the number of rules and the
outcome of the next registration can then be told by the sequence alone
(`Registry.ofRules_firsts`).
-/

namespace BuildGraph

/-- Rules that agree in everything but perhaps their names. -/
def Rule.SameBody (a b : Rule) : Prop :=
  a.commands = b.commands ∧ a.description = b.description ∧ a.generator = b.generator
    ∧ a.restat = b.restat

theorem Rule.agrees_iff_sameBody {a b : Rule} : a.agrees b = true ↔ a.SameBody b := by
  simp [agrees, SameBody]

namespace Registry

/-- The registry after rules were registered one after the other. -/
def ofRules (calls : List Rule) : Registry :=
  calls.foldl (fun r rule => (r.register rule).2) .empty

theorem ofRules_concat (calls : List Rule) (rule : Rule) :
    ofRules (calls ++ [rule]) = ((ofRules calls).register rule).2 := by
  simp [ofRules]

/-- The registry holds the first rule of each name. -/
theorem rules_ofRules (calls : List Rule) : (ofRules calls).rules = Rule.firsts calls := by
  induction calls using List.reverseRecOn with
  | nil => rfl
  | append_singleton calls rule ih =>
      rw [ofRules_concat]
      exact rules_register_of_eq_firsts ih rule

theorem get?_ofRules (calls : List Rule) (name : String) :
    (ofRules calls).get? name = calls.find? (·.name == name) :=
  get?_of_rules_eq_firsts (rules_ofRules calls) name

theorem contains_ofRules (calls : List Rule) (name : String) :
    (ofRules calls).contains name = true ↔ ∃ rule ∈ calls, rule.name = name := by
  rw [contains_eq_isSome_get?, get?_ofRules]
  simp

theorem nodup_names_ofRules (calls : List Rule) : (Rule.names (ofRules calls).rules).Nodup := by
  rw [rules_ofRules]
  exact Rule.nodup_names_firsts calls

/-- No two registered rules have one name, so there are as many as names. -/
theorem size_ofRules (calls : List Rule) :
    (ofRules calls).size = (Rule.names calls).toFinset.card := by
  have hnames : (Rule.names calls).toFinset = (Rule.names (ofRules calls).rules).toFinset := by
    ext name
    rw [List.mem_toFinset, List.mem_toFinset, rules_ofRules, Rule.mem_names_firsts]
  rw [hnames, List.toFinset_card_of_nodup (nodup_names_ofRules calls), size, Rule.names,
    List.length_map]

/-- The position that is found for a name is that of the only rule of this name. -/
theorem position?_ofRules_eq_some_iff (calls : List Rule) (name : String) (i : Nat) :
    (ofRules calls).position? name = some i
      ↔ ((ofRules calls).rules[i]?).map (·.name) = some name := by
  rw [position?_eq_findIdx?, List.findIdx?_eq_some_iff_getElem, Option.map_eq_some_iff]
  constructor
  · rintro ⟨hlt, hname, -⟩
    exact ⟨_, List.getElem?_eq_getElem hlt, by simpa using hname⟩
  · rintro ⟨rule, hrule, rfl⟩
    obtain ⟨hlt, rfl⟩ := List.getElem?_eq_some_iff.1 hrule
    refine ⟨hlt, by simp, fun j hj hname => ?_⟩
    have hpairs := List.pairwise_iff_getElem.1 (List.pairwise_map.1 (nodup_names_ofRules calls))
    exact hpairs j i (hj.trans hlt) hlt hj (by simpa using hname)

theorem rules_prefix_ofRules (calls later : List Rule) :
    (ofRules calls).rules <+: (ofRules (calls ++ later)).rules := by
  induction later using List.reverseRecOn with
  | nil => rw [List.append_nil]
  | append_singleton later rule ih =>
      rw [← List.append_assoc, ofRules_concat]
      exact ih.trans (rules_prefix_register _ rule)

/-- What a registration does, told by the first earlier rule of its name. -/
theorem fst_register_ofRules (calls : List Rule) (rule : Rule) :
    ((ofRules calls).register rule).1 = match calls.find? (·.name == rule.name) with
      | none => .added
      | some held => if held.agrees rule then .present else .conflict := by
  have hget := get?_ofRules calls rule.name
  cases h : calls.find? (·.name == rule.name) with
  | none => rw [register_of_get?_eq_none (hget.trans h)]
  | some held => rw [register_of_get?_eq_some (hget.trans h)]

/-- A registration that adds no rule changes nothing. -/
theorem register_added_or_eq (r : Registry) (rule : Rule) :
    (r.register rule).1 = .added ∨ (r.register rule).2 = r := by
  cases h : r.get? rule.name with
  | none => exact .inl (congrArg Prod.fst (register_of_get?_eq_none h))
  | some held => exact .inr (congrArg Prod.snd (register_of_get?_eq_some h))

/-- After any sequence of registrations a registry holds the first rule of each name, in order of
first registration, and no later registration alters or moves one of them.  A name is bound to the
first rule that was registered under it, by the position that this rule has.  One more registration
adds its rule just if the name is new.  Otherwise it says whether the rule that holds the name has
the same body, and changes nothing. -/
theorem keeps_first_registrations (calls : List Rule) :
    (ofRules calls).rules = Rule.firsts calls
      ∧ (∀ later, (ofRules calls).rules <+: (ofRules (calls ++ later)).rules)
      ∧ (∀ name, (ofRules calls).get? name = calls.find? (·.name == name))
      ∧ (∀ name, (ofRules calls).contains name = true ↔ ∃ rule ∈ calls, rule.name = name)
      ∧ (∀ name i, (ofRules calls).position? name = some i
          ↔ ((ofRules calls).rules[i]?).map (·.name) = some name)
      ∧ (ofRules calls).size = (Rule.names calls).toFinset.card
      ∧ ∀ rule,
        let done := (ofRules calls).register rule
        (done.1 = .added ↔ ∀ r ∈ calls, r.name ≠ rule.name)
          ∧ (done.1 = .present
            ↔ ∃ held, calls.find? (·.name == rule.name) = some held ∧ held.SameBody rule)
          ∧ (done.1 = .conflict
            ↔ ∃ held, calls.find? (·.name == rule.name) = some held ∧ ¬ held.SameBody rule)
          ∧ (done.1 = .added ∨ done.2 = ofRules calls) := by
  refine ⟨rules_ofRules calls, rules_prefix_ofRules calls, get?_ofRules calls,
    contains_ofRules calls, position?_ofRules_eq_some_iff calls, size_ofRules calls, ?_⟩
  intro rule done
  have hdone : done.1 = _ := fst_register_ofRules calls rule
  have hnew : (∀ r ∈ calls, r.name ≠ rule.name)
      ↔ calls.find? (·.name == rule.name) = none := by
    simp
  refine ⟨?_, ?_, ?_, register_added_or_eq _ rule⟩
  all_goals
    rw [hdone]
    cases h : calls.find? (·.name == rule.name) with
    | none => simp [hnew, h]
    | some held =>
        by_cases hbody : held.agrees rule = true <;>
          simp [hnew, h, hbody, ← Rule.agrees_iff_sameBody]

end Registry

end BuildGraph
