import BuildGraph.Proofs.RuleNames

/-!
# Wiring

Wiring looks for the first edge that makes the build file.  If there is none it changes nothing.
Otherwise it changes implicit inputs of that edge alone and order-only paths of those edges alone
that do not make the build file (`Graph.Wired`); every other field, and the number and order of
the edges, stay.

The graph of a description is wired from the edges of its targets, with the built-in edge in
front where the description has neither a rule nor a target for making the build file
(`Description.wired_graph`).  That edge is decided on by the rules in use, so the proof is about
which names the registry holds after the outline.
-/

namespace BuildGraph

open Build

/-! ## What wiring does to one edge -/

/-- An edge after the build file: it waits for the outputs of the edge that makes the file, unless
it makes the file itself. -/
def Edge.after (regen e : Edge) : Edge :=
  if e.rule = Rule.regenName then e else { e with orderOnly := e.orderOnly ++ regen.outputs }

/-- An edge with the files that it lacks among its implicit inputs, each once and in order of their
first occurrence. -/
def Edge.fedBy (files : List String) (e : Edge) : Edge :=
  { e with implicits := e.implicits ++ (files.filter (· ∉ e.implicits)).eraseDups }

@[simp] theorem Edge.rule_fedBy (files : List String) (e : Edge) :
    (e.fedBy files).rule = e.rule := rfl

theorem Edge.isRegen_iff {e : Edge} : e.isRegen = true ↔ e.rule = Rule.regenName := by
  rw [isRegen, beq_iff_eq]

theorem Edge.isRegen_eq_false_iff {e : Edge} :
    e.isRegen = false ↔ e.rule ≠ Rule.regenName := by
  rw [isRegen, beq_eq_false_iff_ne]

theorem Edge.after_of_rule_eq {regen e : Edge} (h : e.rule = Rule.regenName) :
    regen.after e = e := if_pos h

namespace Graph

/-- How edges come out of wiring. -/
inductive Wired : List Edge → List Edge → Prop where
  /-- No edge makes the build file. -/
  | alone {edges : List Edge} (h : ∀ e ∈ edges, e.rule ≠ Rule.regenName) : Wired edges edges
  /-- `regen` is the first edge that does. -/
  | around {before following : List Edge} {regen : Edge}
      (hb : ∀ e ∈ before, e.rule ≠ Rule.regenName) (hr : regen.rule = Rule.regenName) :
      Wired (before ++ regen :: following)
        (before.map regen.after
          ++ regen.fedBy ((before ++ regen :: following).flatMap (·.regenImplicits))
            :: following.map regen.after)

/-! ## The passes over the edges -/

/-- Missing paths are added in order of their first occurrence. -/
theorem addMissing_eq (paths ps : List String) :
    addMissing paths ps = paths ++ (ps.filter (· ∉ paths)).eraseDups := by
  induction ps generalizing paths with
  | nil => simp [addMissing]
  | cons p ps ih =>
      by_cases h : p ∈ paths
      · rw [addMissing, if_pos h, ih, List.filter_cons_of_neg (by simp [h])]
      · have hf : (ps.filter (· ∉ paths)).filter (fun q => !q == p)
            = ps.filter (· ∉ paths ++ [p]) := by
          rw [List.filter_filter]
          refine List.filter_congr fun q _ => ?_
          by_cases hq : q = p <;> simp [hq, h]
        rw [addMissing, if_neg h, ih, List.filter_cons_of_pos (by simp [h]),
          List.eraseDups_cons, hf, List.append_assoc, List.singleton_append]

/-- The first item that satisfies a test stands behind items that do not. -/
theorem updateFirst_append_cons {α : Type} {test : α → Bool} (change : α → α)
    {before following : List α} {a : α} (hb : ∀ b ∈ before, test b = false)
    (ha : test a = true) :
    updateFirst test change (before ++ a :: following) = before ++ change a :: following := by
  induction before with
  | nil => rw [List.nil_append, updateFirst, if_pos ha, List.nil_append]
  | cons b before ih =>
      obtain ⟨hb', hbs⟩ := List.forall_mem_cons.1 hb
      rw [List.cons_append, updateFirst, if_neg (by simp [hb']), ih hbs, List.cons_append]

/-- The pass that makes edges wait. -/
theorem wait_eq_after (regen : Edge) :
    (fun e : Edge => if e.isRegen then e
      else { e with orderOnly := e.orderOnly ++ regen.outputs }) = regen.after := by
  funext e
  simp only [Edge.after, Edge.isRegen_iff]

theorem wired_wire (edges : List Edge) : Wired edges (wire edges) := by
  unfold wire
  split
  · next h =>
      refine .alone fun e he => Edge.isRegen_eq_false_iff.1 ?_
      exact Bool.eq_false_iff.2 (List.find?_eq_none.1 h e he)
  · next regen h =>
      obtain ⟨hr, before, following, rfl, hb⟩ := List.find?_eq_some_iff_append.1 h
      have hb' : ∀ e ∈ before, e.isRegen = false := fun e he => by simpa using hb e he
      have hfed : regen.after (regen.fedBy (regenImplicits (before ++ regen :: following)))
          = regen.fedBy ((before ++ regen :: following).flatMap (·.regenImplicits)) :=
        Edge.after_of_rule_eq (Edge.isRegen_iff.1 hr)
      simp only [addMissing_eq, wait_eq_after]
      rw [updateFirst_append_cons _ hb' hr, List.map_append, List.map_cons]
      rw [show ∀ files, { regen with implicits := regen.implicits
          ++ (files.filter (· ∉ regen.implicits)).eraseDups } = regen.fedBy files from
        fun _ => rfl, hfed]
      exact .around (fun e he => Edge.isRegen_eq_false_iff.1 (hb' e he)) (Edge.isRegen_iff.1 hr)

end Graph

/-! ## The edges of a description -/

/-- The built-in edge that makes the build file again when the description changes. -/
def Regeneration.builtinEdge (values : KeywordValues) : Edge where
  inputs := [Path.join (Keyword.currentInputDir.textAt values)
    (Keyword.descriptionFile.textAt values)]
  outputs := [Path.join (Keyword.outputDir.textAt values) "build.ninja"]
  implicits := [Path.join (Keyword.currentInputDir.textAt values)
    (Keyword.ownCommand.textAt values)]
  rule := "regen"

/-- The edge of a regeneration that leaves everything open. -/
theorem Regeneration.valueAt_edge (values : KeywordValues) :
    (edge {}).valueAt values = builtinEdge values := by
  have hin := Template.composed_pathsIn (.ofKeyword .currentInputDir)
    [Template.ofKeyword .descriptionFile]
  have hout := composed_outputPaths {}
  have himp := Template.composed_pathsIn (.ofKeyword .currentInputDir)
    [Template.ofKeyword .ownCommand]
  have hv : (outputPaths {}).valueAt values
      = [Path.join (Keyword.outputDir.textAt values) "build.ninja"] := by
    rw [outputPaths, (Keyword.composed_pathOf _ _).valueAt_bind fun _ => .pure _,
      valueAt_pure, Keyword.valueAt_pathOf, Ninja.buildFileName]
  unfold edge
  rw [Option.getD_none, Option.getD_none, hin.valueAt_bind fun _ => hout.bind fun _ => himp.bind
      fun _ => .pure _, hout.valueAt_bind fun _ => himp.bind fun _ => .pure _,
    himp.valueAt_bind fun _ => .pure _, valueAt_pure, hv, Template.valueAt_pathsIn,
    Template.valueAt_pathsIn]
  simp only [List.map_cons, List.map_nil, Template.textAt_ofKeyword]
  rfl

/-- Of all kinds one alone brings the rule that makes the build file. -/
theorem Target.Kind.rule?_eq_regenName_iff {k : Kind} :
    k.rule? = some Rule.regenName ↔ k = .regen := by
  cases k <;> decide

namespace Description

/-- Whether a description has a rule of its own, or a target, for making the build file. -/
def declaresRegeneration (d : Description) : Bool :=
  d.rules.any (·.name == Rule.regenName) || d.targets.any (·.kind == .regen)

/-- The edges of the targets, and in front of them the built-in edge that makes the build file
where the description declares none. -/
def completeEdges (d : Description) (s : Session) : List Edge :=
  if d.declaresRegeneration then (d.outline.run s).1.edges
  else Regeneration.builtinEdge s.keywords :: (d.outline.run s).1.edges

theorem declaresRegeneration_iff {d : Description} :
    d.declaresRegeneration = true ↔ d.Brings Rule.regenName := by
  simp only [declaresRegeneration, Brings, Bool.or_eq_true, List.any_eq_true, beq_iff_eq,
    Target.Kind.rule?_eq_regenName_iff]

theorem run_withRegeneration (outline : Graph) (s : Session) :
    (withRegeneration outline).run s = StateT.run
      (if s.knows Rule.regenName then pure outline else do
        Target.Kind.regen.registerBuiltin
        let edge ← Regeneration.edge {}
        pure { rules := (← get).rules.rules, edges := edge :: outline.edges }) s := rfl

theorem withRegeneration_of_knows {s : Session} (h : s.knows Rule.regenName = true)
    (outline : Graph) : (withRegeneration outline).run s = (outline, s) := by
  rw [run_withRegeneration, if_pos h]
  rfl

/-- The built-in edge is composed after its rule was registered, which changes no keyword value. -/
theorem edges_withRegeneration_of_not_knows {s : Session}
    (h : s.knows Rule.regenName = false) (outline : Graph) :
    ((withRegeneration outline).run s).1.edges
      = Regeneration.builtinEdge s.keywords :: outline.edges := by
  have hk : (Target.Kind.regen.registerBuiltin.run s).2.keywords = s.keywords :=
    Target.Kind.regen.takes_registerBuiltin.keywords s
  rw [run_withRegeneration, if_neg (by simp [h]), run_bind, run_bind,
    (Regeneration.composed_edge {}).composes, hk, Regeneration.valueAt_edge]
  rfl

/-- The outline leaves the keyword values as they are, and takes the name of the rule that makes
the build file just if the description declares one. -/
theorem edges_withRegeneration_outline (d : Description) {s : Session}
    (h : s.rules.rules = []) :
    ((withRegeneration (d.outline.run s).1).run (d.outline.run s).2).1.edges
      = d.completeEdges s := by
  have hk : (d.outline.run s).2.keywords = s.keywords := d.takes_outline.keywords s
  have hn : (d.outline.run s).2.knows Rule.regenName = d.declaresRegeneration :=
    Bool.eq_iff_iff.2 ((knows_outline h _).trans declaresRegeneration_iff.symm)
  unfold completeEdges
  cases hd : d.declaresRegeneration with
  | true => rw [withRegeneration_of_knows (hn.trans hd), if_pos rfl]
  | false =>
      rw [edges_withRegeneration_of_not_knows (hn.trans hd), hk, if_neg Bool.false_ne_true]

theorem edges_graph (d : Description) {s : Session} (h : s.rules.rules = []) :
    (d.graph.run s).1.edges = Graph.wire (d.completeEdges s) := by
  rw [← d.edges_withRegeneration_outline h]
  rfl

/-- The graph of a description is wired from its complete edges. -/
theorem wired_graph (d : Description) {s : Session} (h : s.rules.rules = []) :
    Graph.Wired (d.completeEdges s) (d.graph.run s).1.edges := by
  rw [d.edges_graph h]
  exact Graph.wired_wire _

/-- Two edges make the build file, and only the first of them is fed, with the files that it lacks
and each of them once.  The alias before it and the copied file behind it wait for it. -/
theorem wired_graph_of_two_regenerations :
    let deploy : Edge := {
      inputs := ["/site/out/x"]
      outputs := ["deploy"]
      orderOnly := ["/site/out"]
      regenImplicits := ["/site/config", "/site/config"]
      rule := Rule.aliasName }
    let second : Edge := {
      inputs := []
      outputs := ["/site/out/sub.ninja"]
      regenImplicits := ["/usr/bin/haga", "/site/part.lua"]
      rule := Rule.regenName }
    let d : Description := {
      targets := [.core deploy, .regen {}, .core second, .copy { inputs := [.literal "a"] }] }
    let s := Session.ofInvocation "/site" "HAGA.lua" "/usr/bin/haga" {} {}
    let edges := (d.graph.run s).1.edges
    s.rules.rules = [] ∧ Graph.Wired (d.completeEdges s) edges
      ∧ edges.map (·.rule) = ["phony", "regen", "regen", "copy"]
      ∧ edges.map (·.implicits)
        = [[], ["/usr/bin/haga", "/site/config", "/site/part.lua"], [], []]
      ∧ edges.map (·.orderOnly)
        = [["/site/out", "/site/out/build.ninja"], [], [], ["/site/out/build.ninja"]] :=
  ⟨rfl, wired_graph _ rfl, by decide +kernel, by decide +kernel, by decide +kernel⟩

end Description

end BuildGraph
