import BuildGraph.Proofs.Wiring

/-!
# Regeneration

A build file makes itself again if one of its edges makes it, every other edge waits for that one,
and that one depends on every file whose change makes the build file out of date
(`Graph.Regenerates`).  Wiring gives all of this as soon as there is such an edge
(`Graph.Wired.regenerates_iff`).

Whether there is one is another matter.  The built-in edge is left out as soon as a rule has the
name of its rule, and a rule alone is no edge.  So the graph of a description makes its build file
again just if no rule of the description has that name or some target has an edge of that rule
(`Description.regenerates_graph_iff`).
-/

namespace BuildGraph

open Build

/-! ## Wired edges -/

namespace Graph

/-- The first edge that makes the build file is what all others wait for, and depends on all that
makes the build file out of date. -/
def Regenerates (edges : List Edge) : Prop :=
  ∃ regen, edges.find? (·.rule == Rule.regenName) = some regen
    ∧ (∀ e ∈ edges, e.rule ≠ Rule.regenName → ∀ o ∈ regen.outputs, o ∈ e.orderOnly)
    ∧ ∀ e ∈ edges, ∀ f ∈ e.regenImplicits, f ∈ regen.implicits

theorem Regenerates.exists_rule_eq {edges : List Edge} (h : Regenerates edges) :
    ∃ e ∈ edges, e.rule = Rule.regenName := by
  obtain ⟨regen, hf, -, -⟩ := h
  exact ⟨regen, List.mem_of_find?_eq_some hf, by simpa using List.find?_some hf⟩

end Graph

namespace Edge

@[simp] theorem rule_after (regen e : Edge) : (regen.after e).rule = e.rule := by
  unfold after
  split <;> rfl

@[simp] theorem regenImplicits_after (regen e : Edge) :
    (regen.after e).regenImplicits = e.regenImplicits := by
  unfold after
  split <;> rfl

@[simp] theorem regenImplicits_fedBy (files : List String) (e : Edge) :
    (e.fedBy files).regenImplicits = e.regenImplicits := rfl

@[simp] theorem outputs_fedBy (files : List String) (e : Edge) :
    (e.fedBy files).outputs = e.outputs := rfl

/-- An edge is fed with every file. -/
theorem mem_implicits_fedBy {files : List String} {e : Edge} {f : String} (h : f ∈ files) :
    f ∈ (e.fedBy files).implicits := by
  by_cases hf : f ∈ e.implicits
  · exact List.mem_append_left _ hf
  · exact List.mem_append_right _ (List.mem_eraseDups.2 (List.mem_filter.2 ⟨h, by simpa using hf⟩))

/-- An edge of another rule waits for every output. -/
theorem mem_orderOnly_after {regen e : Edge} (h : e.rule ≠ Rule.regenName) {o : String}
    (ho : o ∈ regen.outputs) : o ∈ (regen.after e).orderOnly := by
  rw [after, if_neg h]
  exact List.mem_append_right _ ho

end Edge

namespace Graph.Wired

/-- Wiring keeps the files that make the build file out of date. -/
theorem mem_regenImplicits {edges wired : List Edge} (h : Wired edges wired) {e : Edge}
    (he : e ∈ wired) {f : String} (hf : f ∈ e.regenImplicits) :
    f ∈ edges.flatMap (·.regenImplicits) := by
  cases h with
  | alone => exact List.mem_flatMap.2 ⟨e, he, hf⟩
  | @around before following regen hb hr =>
      have back {l : List Edge} (hl : l ⊆ before ++ regen :: following)
          (he : e ∈ l.map regen.after) :
          f ∈ (before ++ regen :: following).flatMap (·.regenImplicits) := by
        obtain ⟨e', he', rfl⟩ := List.mem_map.1 he
        exact List.mem_flatMap.2 ⟨e', hl he', by simpa using hf⟩
      rcases List.mem_append.1 he with he | he
      · exact back (fun a ha => List.mem_append_left _ ha) he
      · rcases List.mem_cons.1 he with rfl | he
        · exact List.mem_flatMap.2 ⟨regen, by simp, by simpa using hf⟩
        · exact back (fun a ha => by simp [ha]) he

/-- Wired edges make their build file again just if one of them makes it at all. -/
theorem regenerates_iff {edges wired : List Edge} (h : Wired edges wired) :
    Regenerates wired ↔ ∃ e ∈ edges, e.rule = Rule.regenName := by
  have hin {e : Edge} {f : String} (he : e ∈ wired) (hf : f ∈ e.regenImplicits) :=
    h.mem_regenImplicits he hf
  cases h with
  | alone ha =>
      constructor
      · exact Regenerates.exists_rule_eq
      · rintro ⟨e, he, hr⟩
        exact absurd hr (ha e he)
  | @around before following regen hb hr =>
      constructor
      · exact fun _ => ⟨regen, by simp, hr⟩
      · intro _
        have waits {l : List Edge} {e : Edge} (he : e ∈ l.map regen.after)
            (hne : e.rule ≠ Rule.regenName) {o : String} (ho : o ∈ regen.outputs) :
            o ∈ e.orderOnly := by
          obtain ⟨e', -, rfl⟩ := List.mem_map.1 he
          exact Edge.mem_orderOnly_after (by simpa using hne) ho
        refine ⟨_, List.find?_eq_some_iff_append.2 ⟨by simpa using hr, _, _, rfl, ?_⟩,
          fun e he hne o ho => ?_, fun e he f hf => Edge.mem_implicits_fedBy (hin he hf)⟩
        · intro e he
          obtain ⟨e', he', rfl⟩ := List.mem_map.1 he
          simpa using hb e' he'
        · rcases List.mem_append.1 he with he | he
          · exact waits he hne ho
          · rcases List.mem_cons.1 he with rfl | he
            · exact absurd hr hne
            · exact waits he hne ho

end Graph.Wired

/-! ## The edges of targets -/

namespace Build

variable {α β : Type}

/-- The results of a loop are those of its steps, each in a session of its own. -/
theorem exists_of_mem_each {step : α → Build β} {l : List α} {s : Session} {b : β}
    (h : b ∈ ((Build.each step l).run s).1) : ∃ a ∈ l, ∃ s', b = ((step a).run s').1 := by
  induction l generalizing s with
  | nil => cases h
  | cons a l ih =>
      rcases List.mem_cons.1 h with rfl | h
      · exact ⟨a, List.mem_cons_self, s, rfl⟩
      · obtain ⟨a', ha', hs⟩ := ih h
        exact ⟨a', List.mem_cons_of_mem _ ha', hs⟩

theorem exists_mem_each (step : α → Build β) {l : List α} {a : α} (h : a ∈ l) (s : Session) :
    ∃ s', ((step a).run s').1 ∈ ((Build.each step l).run s).1 := by
  induction l generalizing s with
  | nil => cases h
  | cons b l ih =>
      rcases List.mem_cons.1 h with rfl | h
      · exact ⟨s, List.mem_cons_self⟩
      · obtain ⟨s', hs⟩ := ih h ((step b).run s).2
        exact ⟨s', List.mem_cons_of_mem _ hs⟩

end Build

namespace Description

/-- Whether some target has an edge that makes the build file. -/
def HasRegeneratingTarget (d : Description) : Prop :=
  (∃ t, .regen t ∈ d.targets) ∨ ∃ e, .core e ∈ d.targets ∧ e.rule = Rule.regenName

theorem exists_mem_edges_outline_iff (d : Description) (s : Session) :
    (∃ e ∈ (d.outline.run s).1.edges, e.rule = Rule.regenName) ↔ d.HasRegeneratingTarget := by
  have hedges : (d.outline.run s).1.edges
      = ((Build.each Target.edges d.targets).run (d.registerRules.run s).2).1.flatten := rfl
  rw [hedges]
  constructor
  · rintro ⟨e, he, hr⟩
    obtain ⟨es, hes, he⟩ := List.mem_flatten.1 he
    obtain ⟨t, ht, s', rfl⟩ := exists_of_mem_each hes
    rcases t.rule_of_mem_edges s' e he with rfl | hk | ⟨-, ha⟩
    · exact .inr ⟨e, ht, hr⟩
    · rw [hr, Target.Kind.rule?_eq_regenName_iff] at hk
      cases t with
      | regen t => exact .inl ⟨t, ht⟩
      | _ => cases hk
    · exact absurd (hr.symm.trans ha) (by decide)
  · rintro (⟨t, ht⟩ | ⟨e, ht, hr⟩)
    · obtain ⟨s', hs⟩ := exists_mem_each Target.edges ht (d.registerRules.run s).2
      exact ⟨(t.edge.run s').1, List.mem_flatten.2 ⟨_, hs, List.mem_singleton_self _⟩,
        t.rule_edge s'⟩
    · obtain ⟨s', hs⟩ := exists_mem_each Target.edges ht (d.registerRules.run s).2
      exact ⟨e, List.mem_flatten.2 ⟨_, hs, List.mem_singleton_self _⟩, hr⟩

/-- Where the built-in edge is left out although no rule has the name of its rule, there is a
target in its place. -/
theorem exists_mem_completeEdges_iff (d : Description) (s : Session) :
    (∃ e ∈ d.completeEdges s, e.rule = Rule.regenName)
      ↔ (∀ r ∈ d.rules, r.name ≠ Rule.regenName) ∨ d.HasRegeneratingTarget := by
  unfold completeEdges
  split
  · next hd =>
      rw [d.exists_mem_edges_outline_iff]
      constructor
      · exact .inr
      · rintro (hn | h)
        · rcases declaresRegeneration_iff.1 hd with ⟨r, hr, hrn⟩ | ⟨t, ht, hk⟩
          · exact absurd hrn (hn r hr)
          · rw [Target.Kind.rule?_eq_regenName_iff] at hk
            cases t with
            | regen t => exact .inl ⟨t, ht⟩
            | _ => cases hk
        · exact h
  · next hd =>
      constructor
      · exact fun _ => .inl fun r hr hrn => hd (declaresRegeneration_iff.2 (.inl ⟨r, hr, hrn⟩))
      · exact fun _ => ⟨_, List.mem_cons_self, rfl⟩

/-- The graph of a description makes its build file again just if no rule of the description has
the name of the built-in rule for that, or some target has an edge of that rule. -/
theorem regenerates_graph_iff (d : Description) (cwd file command : String) (tools : Toolset)
    (files : Files) :
    Graph.Regenerates (d.graph.run (Session.ofInvocation cwd file command tools files)).1.edges
      ↔ (∀ r ∈ d.rules, r.name ≠ Rule.regenName) ∨ d.HasRegeneratingTarget := by
  rw [d.edges_graph rfl, (Graph.wired_wire _).regenerates_iff]
  exact d.exists_mem_completeEdges_iff _

/-- A rule of that name and no such target: the built-in edge is left out, and no edge makes the
build file. -/
theorem not_regenerates_graph_of_rule_alone :
    ¬ Graph.Regenerates (({
        rules := [{
          name := "regen"
          commands := [[.literal "touch", .literal "$out"]] }]
        targets := [.copy { inputs := [.literal "a"] }] } : Description).graph.run
      (Session.ofInvocation "/site" "HAGA.lua" "/usr/bin/haga" {} {})).1.edges := by
  intro h
  obtain ⟨e, he, hr⟩ := h.exists_rule_eq
  revert e
  decide +kernel

end Description

end BuildGraph
