import BuildGraph.Proofs.DeployOutcomes
import BuildGraph.Proofs.Uniqueness
import Mathlib.Data.List.Induction

/-!
# Warnings of a graph

The outputs of a graph are read one after the other, and one that is read for the second time is
listed: reading one output more adds it to the list just if it was read once before
(`Graph.repeated_concat`).  So the list holds each output that is declared more than once, and
holds it once, in the order in which the second ones are read
(`Graph.exists_positions_repeated`).

Targets warn of nothing but the inputs of deployments that cannot be named, whatever session they
find, and rules warn of nothing (`Description.warns_outline`).  Behind the warnings of all targets
a graph has one for each output in the list (`Description.warns_of_repeated_outputs`).
-/

namespace BuildGraph

open Build

/-! ## Texts that are read again -/

namespace Graph

/-- A text stands at a position of a list, and once before it. -/
structure IsSecondAt (l : List String) (i : Nat) (s : String) : Prop where
  getElem? : l[i]? = some s
  count_take : (l.take i).count s = 1

theorem IsSecondAt.lt_length {l : List String} {i : Nat} {s : String} (h : IsSecondAt l i s) :
    i < l.length := by
  obtain ⟨hi, -⟩ := List.getElem?_eq_some_iff.1 h.getElem?
  exact hi

theorem IsSecondAt.append {l : List String} {i : Nat} {s : String} (h : IsSecondAt l i s)
    (rest : List String) : IsSecondAt (l ++ rest) i s where
  getElem? := by rw [List.getElem?_append_left h.lt_length, h.getElem?]
  count_take := by rw [List.take_append_of_le_length (Nat.le_of_lt h.lt_length), h.count_take]

theorem isSecondAt_length {l : List String} {s : String} (h : l.count s = 1) :
    IsSecondAt (l ++ [s]) l.length s where
  getElem? := List.getElem?_concat_length
  count_take := by rw [List.take_left, h]

/-- The loop with one text more: it is listed if it was read before and is not listed yet. -/
theorem repeatedFrom_concat (seen found l : List String) (s : String) :
    repeatedFrom seen found (l ++ [s])
      = if (s ∈ seen ∨ s ∈ l) ∧ s ∉ repeatedFrom seen found l
        then repeatedFrom seen found l ++ [s] else repeatedFrom seen found l := by
  induction l generalizing seen found with
  | nil =>
      simp only [List.nil_append, repeatedFrom, List.not_mem_nil, or_false]
      grind
  | cons a l ih =>
      simp only [List.cons_append, repeatedFrom]
      split
      · next ha =>
          rw [ih]
          congr 1
          grind
      · rw [ih]
        congr 1
        grind

/-- One text more is listed just if it was read once before. -/
theorem repeated_concat (l : List String) (s : String) :
    repeated (l ++ [s]) = if l.count s = 1 then repeated l ++ [s] else repeated l := by
  have hlisted : (s ∈ ([] : List String) ∨ s ∈ l) ∧ s ∉ repeated l ↔ l.count s = 1 := by
    have hread : (s ∈ ([] : List String) ∨ s ∈ l) ↔ 1 ≤ l.count s := by
      simp [List.one_le_count_iff]
    rw [hread, mem_repeated_iff, List.duplicate_iff_two_le_count]
    omega
  exact (repeatedFrom_concat [] [] l s).trans (if_congr hlisted rfl rfl)

theorem nodup_repeated (l : List String) : (repeated l).Nodup := by
  induction l using List.reverseRecOn with
  | nil => exact List.nodup_nil
  | append_singleton l s ih =>
      rw [repeated_concat]
      split
      · next hcount =>
          have hnew : s ∉ repeated l := by
            rw [mem_repeated_iff, List.duplicate_iff_two_le_count, hcount]
            omega
          rw [← List.concat_eq_append]
          exact ih.concat hnew
      · exact ih

/-- The listed texts stand in the order of the positions where each is read for the second
time. -/
theorem exists_positions_repeated (l : List String) :
    ∃ positions : List Nat, (positions.Pairwise (· < ·) ∧ ∀ i ∈ positions, i < l.length)
      ∧ List.Forall₂ (IsSecondAt l) positions (repeated l) := by
  induction l using List.reverseRecOn with
  | nil => exact ⟨[], ⟨.nil, List.forall_mem_nil _⟩, .nil⟩
  | append_singleton l s ih =>
      obtain ⟨positions, ⟨hsorted, hbound⟩, hsecond⟩ := ih
      have hkept : List.Forall₂ (IsSecondAt (l ++ [s])) positions (repeated l) :=
        hsecond.imp fun i o h => h.append [s]
      have hlength : l.length < (l ++ [s]).length := by simp
      rw [repeated_concat]
      split
      · next hcount =>
          refine ⟨positions ++ [l.length], ⟨?_, ?_⟩, ?_⟩
          · rw [List.pairwise_append]
            refine ⟨hsorted, List.pairwise_singleton _ _, fun i hi j hj => ?_⟩
            rw [List.mem_singleton.1 hj]
            exact hbound i hi
          · exact List.forall_mem_append.2 ⟨fun i hi => Nat.lt_trans (hbound i hi) hlength,
              List.forall_mem_singleton.2 hlength⟩
          · exact List.rel_append hkept (.cons (isSecondAt_length hcount) .nil)
      · exact ⟨positions, ⟨hsorted, fun i hi => Nat.lt_trans (hbound i hi) hlength⟩, hkept⟩

end Graph

/-! ## What is warned of -/

namespace Build

variable {α β : Type}

/-- In every session a computation records the same warnings. -/
def Warns (ps : List Problem) (c : Build α) : Prop :=
  ∀ s : Session, (c.run s).2.warnings = s.warnings ++ ps

theorem Keeps.warns {c : Build α} (h : Keeps Session.warnings c) : Warns [] c := fun s => by
  rw [h s, List.append_nil]

theorem Warns.bind {ps qs : List Problem} {c : Build α} {f : α → Build β} (hc : Warns ps c)
    (hf : ∀ a, Warns qs (f a)) : Warns (ps ++ qs) (c >>= f) := fun s => by
  rw [run_bind, hf, hc, List.append_assoc]

/-- A loop records the warnings of its steps one after the other. -/
theorem warns_each {ps : α → List Problem} {step : α → Build β} (h : ∀ a, Warns (ps a) (step a))
    (l : List α) : Warns (l.flatMap ps) (Build.each step l) := by
  induction l with
  | nil => exact (keeps_pure _ []).warns
  | cons a l ih =>
      have hpure (b : β) (bs : List β) : Warns [] (pure (b :: bs) : Build (List β)) :=
        (keeps_pure _ _).warns
      have hrest (b : β) : Warns (l.flatMap ps ++ []) (Build.each step l >>= fun bs =>
          pure (b :: bs)) := ih.bind (hpure b)
      rw [List.flatMap_cons, ← List.append_nil (l.flatMap ps)]
      exact (h a).bind hrest

end Build

theorem Session.besideRules_warnings : BesideRules warnings where
  errors _ _ := rfl
  rules _ _ := rfl

/-- The inputs of a target that cannot be named; only a deployment has such inputs. -/
def Target.unnameable : Target → List String
  | .rsync t => t.inputs.filter Deployment.isUnsupported
  | _ => []

theorem Target.warns_edges (t : Target) :
    Warns (t.unnameable.map .unnameableInput) t.edges := by
  have hrsync (u : Deployment) : Warns ((Target.rsync u).unnameable.map .unnameableInput)
      (Target.rsync u).edges := by
    change Warns _ u.edges
    exact u.warnings_edges
  obtain hcomposed | ⟨u, rfl⟩ := t.composed_or_rsync
  · have hsilent : Warns [] t.edges := (hcomposed.keeps fun _ _ => rfl).warns
    cases t with
    | rsync u => exact hrsync u
    | _ => exact hsilent
  · exact hrsync u

namespace Description

/-- The outline warns of the inputs that cannot be named, target by target. -/
theorem warns_outline (d : Description) :
    Warns ((d.targets.flatMap Target.unnameable).map .unnameableInput) d.outline := by
  have hrules : Warns [] d.registerRules :=
    (d.keeps_registerRules Session.besideRules_warnings).warns
  have htargets := warns_each Target.warns_edges d.targets
  intro s
  have hrun : (d.outline.run s).2
      = ((Build.each Target.edges d.targets).run (d.registerRules.run s).2).2 := rfl
  rw [hrun, htargets, hrules, List.append_nil, List.map_flatMap]

/-- **Each repeated output is warned of once.**  For every graph, an output is listed just if it
occurs at least twice among the outputs of all edges, it is listed once, and the list is in the
order of the positions at which its outputs occur for the second time.  For every description and
session, the outline warns of the inputs of deployments that cannot be named and of nothing else,
and the graph warns of what its outline warns of and then once of each listed output, in the order
of the list. -/
theorem warns_of_repeated_outputs :
    (∀ g : Graph, g.repeatedOutputs.Nodup
        ∧ (∀ o, o ∈ g.repeatedOutputs ↔ 2 ≤ (g.edges.flatMap (·.outputs)).count o)
        ∧ ∃ positions : List Nat, positions.Pairwise (· < ·)
          ∧ List.Forall₂ (Graph.IsSecondAt (g.edges.flatMap (·.outputs))) positions
            g.repeatedOutputs)
      ∧ ∀ (d : Description) (s : Session),
        (d.outline.run s).2.warnings
          = s.warnings ++ (d.targets.flatMap Target.unnameable).map .unnameableInput
        ∧ (d.graph.run s).2.warnings
          = (d.outline.run s).2.warnings
            ++ (d.graph.run s).1.repeatedOutputs.map .repeatedOutput := by
  refine ⟨fun g => ⟨Graph.nodup_repeated _, fun o => ?_, ?_⟩, fun d s => ⟨d.warns_outline s, ?_⟩⟩
  · rw [Graph.mem_repeatedOutputs_iff, List.duplicate_iff_two_le_count, Graph.outputs]
  · obtain ⟨positions, ⟨hsorted, -⟩, hsecond⟩ := Graph.exists_positions_repeated g.outputs
    exact ⟨positions, hsorted, hsecond⟩
  · have hadded : (d.graph.run s).2.warnings
        = ((withRegeneration (d.outline.run s).1).run (d.outline.run s).2).2.warnings
          ++ (d.graph.run s).1.repeatedOutputs.map .repeatedOutput := rfl
    rw [hadded, keeps_withRegeneration Session.besideRules_warnings]

/-- One output is declared three times, and for the second time behind another one.  The session
holds a warning already. -/
theorem warns_of_repeated_outputs_thrice :
    let made (outputs : List String) : Target := .core { inputs := [], outputs, rule := "make" }
    let d : Description := {
      targets := [made ["a", "b"], .copy { inputs := [.literal "x"] }, made ["c", "b", "a"],
        made ["a"]] }
    let s : Session := { Session.ofInvocation "/site" "HAGA.lua" "/usr/bin/haga" {} {} with
      warnings := [.unnameableInput "a b"] }
    let g := (d.graph.run s).1
    let outputs := g.edges.flatMap (·.outputs)
    outputs = ["/site/out/build.ninja", "a", "b", "/site/out/x", "c", "b", "a", "a"]
      ∧ 2 ≤ outputs.count "a" ∧ "a" ∈ g.repeatedOutputs
      ∧ g.repeatedOutputs = ["b", "a"]
      ∧ (d.graph.run s).2.warnings
        = [.unnameableInput "a b", .repeatedOutput "b", .repeatedOutput "a"] := by
  intro made d s g outputs
  have hcount : 2 ≤ outputs.count "a" := by decide +kernel
  have hlisted : g.repeatedOutputs = ["b", "a"] := by decide +kernel
  obtain ⟨houtline, hgraph⟩ := warns_of_repeated_outputs.2 d s
  refine ⟨by decide +kernel, hcount, ((warns_of_repeated_outputs.1 g).2.1 "a").2 hcount, hlisted, ?_⟩
  rw [hgraph, houtline, hlisted]
  decide

end Description

end BuildGraph
