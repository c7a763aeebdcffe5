import BuildGraph.Proofs.Regeneration
import Mathlib.Logic.Relation

/-!
# Cycles

The executor refuses edges of which one needs, directly or by way of others, what it makes itself.
Wiring adds arcs of two kinds: from the outputs of the first edge that makes the build file to
every file whose change makes the build file out of date, and from every output of an edge of
another rule to the outputs of that first edge (`Graph.Wired.arc_iff`).

An added arc can close a cycle.  The description itself may be made by an edge, and then this edge
waits for the build file, which needs the description.  There is an exact condition
(`Graph.Uninvolved`): from what stands behind an added arc no path leads to where such an arc
starts, but for arcs of the first kind behind those of the second.  The proof goes around a cycle
several times.  Behind an arc of the second kind no other of that kind is met, and behind an arc of
the first kind none at all, so in the end the cycle has no added arc
(`Graph.Uninvolved.transGen_arc`).
-/

namespace BuildGraph

open Relation

/-- Every path that an edge needs. -/
def Edge.needs (e : Edge) : List String :=
  e.inputs ++ e.implicits ++ e.regenImplicits ++ e.orderOnly

namespace Graph

/-! ## Arcs -/

/-- Some edge makes the one path and needs the other. -/
def Arc (edges : List Edge) (p q : String) : Prop :=
  ∃ e ∈ edges, p ∈ e.outputs ∧ q ∈ e.needs

/-- No path is needed for itself. -/
def Acyclic (edges : List Edge) : Prop := ∀ p, ¬TransGen (Arc edges) p p

/-- The outputs of edges that do not make the build file. -/
def otherOutputs (edges : List Edge) : List String :=
  (edges.filter (·.rule ≠ Rule.regenName)).flatMap (·.outputs)

/-- The arcs that wiring adds around an edge. -/
def Added (edges : List Edge) (regen : Edge) (p q : String) : Prop :=
  (p ∈ regen.outputs ∧ q ∈ edges.flatMap (·.regenImplicits))
    ∨ (p ∈ otherOutputs edges ∧ q ∈ regen.outputs)

/-- Edges are acyclic if every path has a rank above those of the paths that are needed for it. -/
theorem acyclic_of_rank {edges : List Edge} (rank : String → Nat)
    (h : ∀ e ∈ edges, ∀ p ∈ e.outputs, ∀ q ∈ e.needs, rank q < rank p) : Acyclic edges := by
  have hlt {p q : String} (hpq : TransGen (Arc edges) p q) : rank q < rank p := by
    induction hpq with
    | single harc =>
        obtain ⟨e, he, hp, hq⟩ := harc
        exact h e he _ hp _ hq
    | tail _ harc ih =>
        obtain ⟨e, he, hp, hq⟩ := harc
        exact Nat.lt_trans (h e he _ hp _ hq) ih
  exact fun p hcycle => Nat.lt_irrefl _ (hlt hcycle)

end Graph

namespace Edge

@[simp] theorem outputs_after (regen e : Edge) : (regen.after e).outputs = e.outputs := by
  unfold after
  split <;> rfl

theorem mem_needs_after {regen e : Edge} {q : String} :
    q ∈ (regen.after e).needs ↔ q ∈ e.needs ∨ (e.rule ≠ Rule.regenName ∧ q ∈ regen.outputs) := by
  by_cases h : e.rule = Rule.regenName
  · simp [after_of_rule_eq h, h]
  · rw [after, if_neg h]
    simp [needs, h, or_assoc]

theorem mem_needs_fedBy {files : List String} {e : Edge} {q : String} :
    q ∈ (e.fedBy files).needs ↔ q ∈ e.needs ∨ q ∈ files := by
  have himplicits : q ∈ (e.fedBy files).implicits ↔ q ∈ e.implicits ∨ q ∈ files := by
    by_cases h : q ∈ e.implicits <;> simp [fedBy, h]
  change q ∈ e.inputs ++ (e.fedBy files).implicits ++ e.regenImplicits ++ e.orderOnly ↔ _
  simp only [needs, List.mem_append, himplicits]
  grind

end Edge

namespace Graph

section Arcs

variable {p q : String}

theorem arc_cons {e : Edge} {edges : List Edge} :
    Arc (e :: edges) p q ↔ (p ∈ e.outputs ∧ q ∈ e.needs) ∨ Arc edges p q := by
  simp [Arc]

theorem arc_append {edges more : List Edge} :
    Arc (edges ++ more) p q ↔ Arc edges p q ∨ Arc more p q := by
  simp [Arc, or_and_right, exists_or]

theorem mem_otherOutputs {edges : List Edge} :
    p ∈ otherOutputs edges ↔ ∃ e ∈ edges, e.rule ≠ Rule.regenName ∧ p ∈ e.outputs := by
  simp [otherOutputs, and_assoc]

/-- Edges that wait for another have an arc from each of their outputs to each of its outputs. -/
theorem arc_map_after {regen : Edge} {edges : List Edge} :
    Arc (edges.map regen.after) p q
      ↔ Arc edges p q ∨ (p ∈ otherOutputs edges ∧ q ∈ regen.outputs) := by
  constructor
  · rintro ⟨e, he, hp, hq⟩
    obtain ⟨e', he', rfl⟩ := List.mem_map.1 he
    rw [Edge.outputs_after] at hp
    obtain hq | ⟨hrule, hq⟩ := Edge.mem_needs_after.1 hq
    · exact .inl ⟨e', he', hp, hq⟩
    · exact .inr ⟨mem_otherOutputs.2 ⟨e', he', hrule, hp⟩, hq⟩
  · rintro (⟨e, he, hp, hq⟩ | ⟨hp, hq⟩)
    · exact ⟨_, List.mem_map_of_mem he, by rwa [Edge.outputs_after],
        Edge.mem_needs_after.2 (.inl hq)⟩
    · obtain ⟨e, he, hrule, hp⟩ := mem_otherOutputs.1 hp
      exact ⟨_, List.mem_map_of_mem he, by rwa [Edge.outputs_after],
        Edge.mem_needs_after.2 (.inr ⟨hrule, hq⟩)⟩

/-- The arcs of wired edges are those of the edges and the added ones. -/
theorem Wired.arc_iff {edges wired : List Edge} (h : Wired edges wired) :
    Arc wired p q ↔ Arc edges p q
      ∨ ∃ regen, edges.find? (·.rule == Rule.regenName) = some regen ∧ Added edges regen p q := by
  cases h with
  | alone ha =>
      have hnone : edges.find? (·.rule == Rule.regenName) = none :=
        List.find?_eq_none.2 fun e he => by simpa using ha e he
      simp [hnone]
  | @around before following regen hb hr =>
      have hfind : (before ++ regen :: following).find? (·.rule == Rule.regenName) = some regen :=
        List.find?_eq_some_iff_append.2
          ⟨by simpa using hr, before, following, rfl, fun e he => by simpa using hb e he⟩
      have hothers : p ∈ otherOutputs (before ++ regen :: following)
          ↔ p ∈ otherOutputs before ∨ p ∈ otherOutputs following := by
        simp [otherOutputs, hr]
      simp only [hfind, Option.some.injEq, exists_eq_left', Added, arc_append, arc_cons,
        arc_map_after, Edge.outputs_fedBy, Edge.mem_needs_fedBy, hothers]
      grind

end Arcs

/-! ## Cycles with added arcs -/

/-- What follows an arc that wiring adds around an edge leads to no start of such an arc, except
from the outputs of the edge to the files that make the build file out of date. -/
structure Uninvolved (edges : List Edge) (regen : Edge) : Prop where
  /-- What makes the build file needs no output of another edge. -/
  outputs : ∀ o ∈ regen.outputs, ∀ n ∈ otherOutputs edges, ¬ReflTransGen (Arc edges) o n
  /-- Nor does a file that makes the build file out of date, if there is a build file. -/
  files : regen.outputs ≠ [] → ∀ f ∈ edges.flatMap (·.regenImplicits),
    ∀ n ∈ otherOutputs edges, ¬ReflTransGen (Arc edges) f n
  /-- Such a file does not need the build file. -/
  apart : ∀ f ∈ edges.flatMap (·.regenImplicits), ∀ o ∈ regen.outputs,
    ¬ReflTransGen (Arc edges) f o

/-- Where every arc of `B` is one of `A` or leads into a set that is not left, a path along arcs of
`B` is one along arcs of `A` or leads into that set. -/
theorem transGen_or {A B : String → String → Prop} {here there : String → Prop}
    (hstep : ∀ p q, here p → B p q → here q ∧ (A p q ∨ there q))
    (hthere : ∀ p q, there p → B p q → there q) {p q : String} (hp : here p)
    (h : TransGen B p q) : here q ∧ (TransGen A p q ∨ there q) := by
  induction h with
  | single hb =>
      obtain ⟨hq, ha | ht⟩ := hstep _ _ hp hb
      · exact ⟨hq, .inl (.single ha)⟩
      · exact ⟨hq, .inr ht⟩
  | tail _ hb ih =>
      obtain ⟨hq, hpath | ht⟩ := ih
      · obtain ⟨hr, ha | ht⟩ := hstep _ _ hq hb
        · exact ⟨hr, .inl (hpath.tail ha)⟩
        · exact ⟨hr, .inr ht⟩
      · exact ⟨(hstep _ _ hq hb).1, .inr (hthere _ _ ht hb)⟩

/-- A cycle with added arcs around an edge that is not involved is a cycle without them. -/
theorem Uninvolved.transGen_arc {edges : List Edge} {regen : Edge} (h : Uninvolved edges regen)
    {B : String → String → Prop} (hB : ∀ p q, B p q → Arc edges p q ∨ Added edges regen p q)
    {p : String} (hcycle : TransGen B p p) : TransGen (Arc edges) p p := by
  let leads := ReflTransGen (Arc edges)
  let fed (q : String) : Prop :=
    regen.outputs ≠ [] ∧ ∃ f ∈ edges.flatMap (·.regenImplicits), leads f q
  let behind (q : String) : Prop := (∃ o ∈ regen.outputs, leads o q) ∨ fed q
  have hfed : ∀ p q, fed p → B p q → fed q ∧ (Arc edges p q ∨ False) := by
    rintro p q ⟨hne, f, hf, hlead⟩ hb
    obtain harc | ⟨hp, -⟩ | ⟨hp, -⟩ := hB p q hb
    · exact ⟨⟨hne, f, hf, hlead.tail harc⟩, .inl harc⟩
    · exact absurd hlead (h.apart f hf p hp)
    · exact absurd hlead (h.files hne f hf p hp)
  have hbehind : ∀ p q, behind p → B p q → behind q ∧ (Arc edges p q ∨ fed q) := by
    rintro p q (⟨o, ho, hlead⟩ | hp) hb
    · obtain harc | ⟨hp, hq⟩ | ⟨hp, -⟩ := hB p q hb
      · exact ⟨.inl ⟨o, ho, hlead.tail harc⟩, .inl harc⟩
      · have hq : fed q := ⟨List.ne_nil_of_mem hp, q, hq, .refl⟩
        exact ⟨.inr hq, .inr hq⟩
      · exact absurd hlead (h.outputs o ho p hp)
    · obtain ⟨hq, -⟩ := hfed p q hp hb
      exact ⟨.inr hq, .inr hq⟩
  have hall : ∀ p q, True → B p q → True ∧ (Arc edges p q ∨ behind q) := by
    intro p q _ hb
    obtain harc | ⟨hp, hq⟩ | ⟨-, hq⟩ := hB p q hb
    · exact ⟨trivial, .inl harc⟩
    · exact ⟨trivial, .inr (.inr ⟨List.ne_nil_of_mem hp, q, hq, .refl⟩)⟩
    · exact ⟨trivial, .inr (.inl ⟨q, hq, .refl⟩)⟩
  obtain ⟨-, hpath | hp⟩ := transGen_or hall (fun p q hp hb => (hbehind p q hp hb).1) trivial hcycle
  · exact hpath
  · obtain ⟨-, hpath | hp⟩ := transGen_or hbehind (fun p q hp hb => (hfed p q hp hb).1) hp hcycle
    · exact hpath
    · obtain ⟨-, hpath | hp⟩ := transGen_or hfed (fun _ _ hp => hp.elim) hp hcycle
      · exact hpath
      · exact hp.elim

/-- Wired edges are acyclic just if the edges were and the first edge that makes the build file, if
there is one, is not involved with what wiring adds around it. -/
theorem Wired.acyclic_iff {edges wired : List Edge} (h : Wired edges wired) :
    Acyclic wired ↔ Acyclic edges
      ∧ ∀ regen, edges.find? (·.rule == Rule.regenName) = some regen → Uninvolved edges regen := by
  constructor
  · intro hwired
    have hkept : Arc edges ≤ Arc wired := fun _ _ harc => h.arc_iff.2 (.inl harc)
    refine ⟨fun p hcycle => hwired p (TransGen.mono hkept p p hcycle), fun regen hregen => ?_⟩
    have hadded {p q : String} (hpq : Added edges regen p q) : Arc wired p q :=
      h.arc_iff.2 (.inr ⟨regen, hregen, hpq⟩)
    constructor
    case outputs =>
      intro o ho n hn hlead
      exact hwired n (.head' (hadded (.inr ⟨hn, ho⟩)) (ReflTransGen.mono hkept _ _ hlead))
    case files =>
      intro hne f hf n hn hlead
      obtain ⟨o, ho⟩ := List.exists_mem_of_ne_nil _ hne
      have hfed : ReflTransGen (Arc wired) o n :=
        .head (hadded (.inl ⟨ho, hf⟩)) (ReflTransGen.mono hkept _ _ hlead)
      exact hwired n (.head' (hadded (.inr ⟨hn, ho⟩)) hfed)
    case apart =>
      intro f hf o ho hlead
      exact hwired o (.head' (hadded (.inl ⟨ho, hf⟩)) (ReflTransGen.mono hkept _ _ hlead))
  · rintro ⟨hedges, huninvolved⟩ p hcycle
    cases hregen : edges.find? (·.rule == Rule.regenName) with
    | none =>
        have hkept : Arc wired ≤ Arc edges := by
          intro p q hpq
          obtain harc | ⟨regen, hsome, -⟩ := h.arc_iff.1 hpq
          · exact harc
          · rw [hregen] at hsome
            cases hsome
        exact hedges p (TransGen.mono hkept p p hcycle)
    | some regen =>
        refine hedges p ((huninvolved regen hregen).transGen_arc (fun p q hpq => ?_) hcycle)
        obtain harc | ⟨regen', hsome, hadded⟩ := h.arc_iff.1 hpq
        · exact .inl harc
        · rw [hregen] at hsome
          obtain rfl := Option.some.inj hsome
          exact .inr hadded

end Graph

/-! ## Descriptions -/

namespace Description

/-- The graph of a description is acyclic just if its complete edges are and the first of them that
makes the build file, if there is one, is not involved with what wiring adds around it. -/
theorem acyclic_graph_iff (d : Description) (cwd file command : String) (tools : Toolset)
    (files : Files) :
    Graph.Acyclic (d.graph.run (Session.ofInvocation cwd file command tools files)).1.edges
      ↔ Graph.Acyclic (d.completeEdges (Session.ofInvocation cwd file command tools files))
        ∧ ∀ regen, (d.completeEdges (Session.ofInvocation cwd file command tools files)).find?
            (·.rule == Rule.regenName) = some regen →
          Graph.Uninvolved
            (d.completeEdges (Session.ofInvocation cwd file command tools files)) regen := by
  rw [d.edges_graph rfl]
  exact (Graph.wired_wire _).acyclic_iff

/-- A description that is made by an edge of its own: that edge waits for the build file, which
needs the description. -/
theorem not_acyclic_graph_of_made_description :
    let make : Edge := {
      inputs := ["/site/HAGA.in"]
      outputs := ["/site/HAGA.lua"]
      rule := "make" }
    let d : Description := {
      rules := [{ name := "make", commands := [[.literal "cp", .literal "$in", .literal "$out"]] }]
      targets := [.core make] }
    let s := Session.ofInvocation "/site" "HAGA.lua" "/usr/bin/haga" {} {}
    Graph.Acyclic (d.completeEdges s) ∧ ¬Graph.Acyclic (d.graph.run s).1.edges := by
  intro make d s
  constructor
  · let rank (p : String) : Nat :=
      if p = "/site/out/build.ninja" then 2 else if p = "/site/HAGA.lua" then 1 else 0
    exact Graph.acyclic_of_rank rank (by decide +kernel)
  · intro hacyclic
    have hmake : Graph.Arc (d.graph.run s).1.edges "/site/HAGA.lua" "/site/out/build.ninja" := by
      unfold Graph.Arc
      decide +kernel
    have hregen : Graph.Arc (d.graph.run s).1.edges "/site/out/build.ninja" "/site/HAGA.lua" := by
      unfold Graph.Arc
      decide +kernel
    exact hacyclic _ (.tail (.single hmake) hregen)

end Description

end BuildGraph
