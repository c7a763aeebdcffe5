import BuildGraph.Proofs.Composing

/-!
# Edges of targets

Every kind of target but a deployment has edges that are composed.  A deployment reads and writes
files and records warnings and unusable configs as well.  None of them does more to a session, so
what does not depend on these is kept (`Session.Apart`, `Target.keeps_edges`): the keyword values,
the rules, and the conflicts between rules.

An edge of a target that is not taken as it is refers to the rule of the target's kind or, for a
deployment, is its alias (`Target.rule_of_mem_edges`).
-/

namespace BuildGraph

open Build

/-! ## What is composed -/

namespace Preprocessing

theorem composed_withDefines (edge : Edge) (defines : List Template) :
    (withDefines edge defines).Composed := by
  unfold withDefines
  split
  · exact .pure edge
  · exact (Template.composed_composeAll defines).bind fun _ => .pure _

theorem composed_outputFor (t : Preprocessing) (input : String) :
    (t.outputFor input).Composed := by
  unfold outputFor
  split
  · exact Template.composed_compose _
  · exact .pure _

theorem composed_edge (t : Preprocessing) : t.edge.Composed :=
  t.input.composed_compose.bind fun input => (t.composed_outputFor input).bind fun output =>
    (Keyword.composed_pathOf _ input).bind fun _ => (Keyword.composed_pathOf _ output).bind
      fun _ => (Template.composed_pathsIn _ _).bind fun _ => composed_withDefines _ _

end Preprocessing

theorem PreprocessingBatch.composed_edges (t : PreprocessingBatch) : t.edges.Composed :=
  (Template.composed_compose _).bind fun _ => (Template.composed_compose _).bind fun _ =>
    .each (fun input => input.composed_compose.bind fun _ =>
      Preprocessing.composed_edge _) t.inputs

namespace FileBatch

theorem composed_edges (t : FileBatch) (kind : Target.Kind) : (t.edges kind).Composed :=
  (Template.composed_pathIn _ _).bind fun _ => (Template.composed_pathIn _ _).bind fun _ =>
    .each (fun input => input.composed_compose.bind fun _ => .pure _) t.inputs

theorem composed_minifiedEdges (t : FileBatch) : t.minifiedEdges.Composed :=
  (t.composed_edges .minify).bind fun _ => (Template.composed_compose _).bind fun _ =>
    .pure _

end FileBatch

theorem Conversion.composed_edge (t : Conversion) (kind : Target.Kind) :
    (t.edge kind).Composed :=
  (Template.composed_pathIn _ _).bind fun _ => (Template.composed_pathIn _ _).bind fun _ =>
    (Template.composed_composeWords _).bind fun _ => .pure _

theorem Archive.composed_edge (t : Archive) : t.edge.Composed :=
  (Template.composed_pathIn _ _).bind fun _ => (Template.composed_composeAll _).bind fun _ =>
    (Template.composed_pathIn _ _).bind fun _ => (Template.composed_compose _).bind fun _ =>
      .pure _

namespace Regeneration

theorem composed_outputPaths (t : Regeneration) : t.outputPaths.Composed := by
  unfold outputPaths
  split
  · exact Template.composed_pathsIn _ _
  · exact (Keyword.composed_pathOf _ _).bind fun _ => .pure _

theorem composed_edge (t : Regeneration) : t.edge.Composed :=
  (Template.composed_pathsIn _ _).bind fun _ => t.composed_outputPaths.bind fun _ =>
    (Template.composed_pathsIn _ _).bind fun _ => .pure _

end Regeneration

/-- The edges of a target that is no deployment are composed. -/
theorem Target.composed_or_rsync (t : Target) : t.edges.Composed ∨ ∃ u, t = .rsync u := by
  have one {c : Build Edge} (hc : c.Composed) : (c >>= fun edge => pure [edge]).Composed :=
    hc.bind fun _ => .pure _
  cases t with
  | cpp t => exact .inl (one t.composed_edge)
  | cpps t => exact .inl t.composed_edges
  | copy t => exact .inl (t.composed_edges .copy)
  | magick t => exact .inl (one (t.composed_edge .magick))
  | rsvgConvert t => exact .inl (one (t.composed_edge .rsvgConvert))
  | minify t => exact .inl t.composed_minifiedEdges
  | zip t => exact .inl (one t.composed_edge)
  | regen t => exact .inl (one t.composed_edge)
  | rsync t => exact .inr ⟨t, rfl⟩
  | core e => exact .inl (.pure [e])

/-! ## What is kept -/

namespace Build

variable {α β γ : Type}

/-- A computation leaves a view of the session as it is. -/
def Keeps (view : Session → γ) (c : Build α) : Prop := ∀ s : Session, view (c.run s).2 = view s

theorem keeps_pure (view : Session → γ) (a : α) : Keeps view (pure a : Build α) := fun _ => rfl

theorem Keeps.bind {view : Session → γ} {c : Build α} {f : α → Build β} (hc : Keeps view c)
    (hf : ∀ a, Keeps view (f a)) : Keeps view (c >>= f) := fun s =>
  (hf _ _).trans (hc s)

theorem keeps_get (view : Session → γ) : Keeps view (get : Build Session) := fun _ => rfl

theorem keeps_modify {view : Session → γ} (f : Session → Session)
    (h : ∀ s, view (f s) = view s) : Keeps view (modify f : Build PUnit) := h

theorem keeps_each {view : Session → γ} {step : α → Build β} (h : ∀ a, Keeps view (step a))
    (l : List α) : Keeps view (Build.each step l) := by
  induction l with
  | nil => exact keeps_pure view []
  | cons a l ih => exact (h a).bind fun b => ih.bind fun bs => keeps_pure view (b :: bs)

/-- A computation that is composed leaves every view as it is that does not depend on missing
names. -/
theorem Composed.keeps {c : Build α} (hc : c.Composed) {view : Session → γ}
    (h : ∀ (s : Session) (name : String), view (s.addError (.missingKeyword name)) = view s) :
    Keeps view c := by
  induction hc with
  | pure a => exact keeps_pure view a
  | value k =>
      intro s
      rw [k.run_value, Keyword.problemsOf]
      split
      · rw [Session.addErrors_nil]
      · exact h s k.name
  | reportMissing name => exact fun s => h s name
  | bind _ _ ihc ihf => exact ihc.bind ihf

end Build

/-- A view of a session that does not depend on what targets change. -/
structure Session.Apart {γ : Type} (view : Session → γ) : Prop where
  missing (s : Session) (name : String) : view (s.addError (.missingKeyword name)) = view s
  unusable (s : Session) (e : Deploy.Config.Error) : view (s.addError e.problem) = view s
  warned (s : Session) (ps : List Problem) : view (s.addWarnings ps) = view s
  written (s : Session) (files : Files) : view { s with files } = view s

/-- What no target changes: the keyword values and the rules. -/
def Session.setting (s : Session) : KeywordValues × Registry := (s.keywords, s.rules)

theorem Session.apart_setting : Apart setting where
  missing _ _ := rfl
  unusable _ _ := rfl
  warned _ _ := rfl
  written _ _ := rfl

section Apart

variable {γ : Type} {view : Session → γ}

theorem Deploy.Destination.keeps_obtain (hview : Session.Apart view) (path : String)
    {template : Build String} (h : Keeps view template) : Keeps view (obtain path template) := by
  refine (keeps_get _).bind fun s => ?_
  split
  · exact (keeps_get _).bind fun _ => keeps_pure _ _
  · refine h.bind fun dst => (keeps_get _).bind fun s => ?_
    split
    · exact keeps_pure _ _
    · refine Keeps.bind ?_ fun _ => keeps_pure _ _
      exact keeps_modify _ fun s => hview.written s _

theorem Deployment.keeps_edges (hview : Session.Apart view) (t : Deployment) :
    Keeps view t.edges := by
  refine ((Template.composed_pathIn _ _).keeps hview.missing).bind fun config => ?_
  refine (Deploy.Destination.keeps_obtain hview config
    ((Template.composed_compose _).keeps hview.missing)).bind fun destination => ?_
  refine Keeps.bind (keeps_modify (·.addWarnings _) fun s => hview.warned s _) fun _ => ?_
  split
  · exact Keeps.bind (keeps_modify (·.addError _) fun s => hview.unusable s _) fun _ =>
      keeps_pure _ _
  · split
    · exact keeps_pure _ _
    · exact ((Template.composed_pathIn _ _).keeps hview.missing).bind fun _ =>
        ((Template.composed_pathWithSuffix _ _).keeps hview.missing).bind fun _ =>
          keeps_pure _ _

/-- No target changes what is apart from missing names, unusable configs, warnings and files. -/
theorem Target.keeps_edges (hview : Session.Apart view) (t : Target) : Keeps view t.edges := by
  obtain hcomposed | ⟨u, rfl⟩ := t.composed_or_rsync
  · exact hcomposed.keeps hview.missing
  · exact u.keeps_edges hview

end Apart

theorem Target.keywords_edges (t : Target) (s : Session) :
    (t.edges.run s).2.keywords = s.keywords :=
  congrArg Prod.fst (t.keeps_edges Session.apart_setting s)

/-! ## The rules that edges refer to -/

namespace Build

variable {α β : Type}

/-- Whatever session a computation starts in, its result has a property. -/
def Yields (p : α → Prop) (c : Build α) : Prop := ∀ s : Session, p (c.run s).1

theorem yields_pure {p : α → Prop} {a : α} (h : p a) : Yields p (pure a : Build α) := fun _ => h

theorem yields_bind {p : β → Prop} {c : Build α} {f : α → Build β} (h : ∀ a, Yields p (f a)) :
    Yields p (c >>= f) := fun _ => h _ _

/-- A property of an intermediate result may be used for the final one. -/
theorem Yields.bind {q : α → Prop} {p : β → Prop} {c : Build α} {f : α → Build β}
    (hc : Yields q c) (h : ∀ a, q a → Yields p (f a)) : Yields p (c >>= f) := fun s =>
  h _ (hc s) _

theorem yields_each {p : β → Prop} {step : α → Build β} (h : ∀ a, Yields p (step a))
    (l : List α) : Yields (fun bs => ∀ b ∈ bs, p b) (Build.each step l) := by
  induction l with
  | nil => exact yields_pure (by simp)
  | cons a l ih =>
      refine (h a).bind fun b hb => ih.bind fun bs hbs => yields_pure ?_
      exact List.forall_mem_cons.2 ⟨hb, hbs⟩

end Build

theorem Preprocessing.yields_withDefines (edge : Edge) (defines : List Template) :
    Yields (fun e => e.rule = edge.rule) (withDefines edge defines) := by
  unfold withDefines
  split
  · exact yields_pure rfl
  · exact yields_bind fun _ => yields_pure rfl

theorem Preprocessing.rule_edge (t : Preprocessing) :
    Yields (fun e => e.rule = Target.Kind.cpp.name) t.edge :=
  yields_bind fun _ => yields_bind fun _ => yields_bind fun _ => yields_bind fun _ =>
    yields_bind fun _ => yields_withDefines _ _

theorem FileBatch.rule_edges (t : FileBatch) (kind : Target.Kind) :
    Yields (fun es => ∀ e ∈ es, e.rule = kind.name) (t.edges kind) := by
  refine yields_bind fun _ => yields_bind fun _ => yields_each (fun input => ?_) t.inputs
  exact yields_bind fun _ => yields_pure rfl

theorem Regeneration.rule_edge (t : Regeneration) :
    Yields (fun e => e.rule = Target.Kind.regen.name) t.edge :=
  yields_bind fun _ => yields_bind fun _ => yields_bind fun _ => yields_pure rfl

/-- What an edge of a target refers to: the rule of its kind, the alias rule for a deployment, and
anything for an edge that is taken as it is. -/
def Target.Refers (t : Target) (e : Edge) : Prop :=
  t = .core e ∨ t.kind.rule? = some e.rule ∨ t.kind = .rsync ∧ e.rule = Rule.aliasName

theorem Target.rule_of_mem_edges (t : Target) :
    Yields (fun es => ∀ e ∈ es, t.Refers e) t.edges := by
  have one {c : Build Edge} {name : String} (ht : t.kind.rule? = some name)
      (hc : Yields (fun e => e.rule = name) c) :
      Yields (fun es => ∀ e ∈ es, t.Refers e) (c >>= fun edge => pure [edge]) :=
    hc.bind fun edge h => yields_pure fun e he => by
      rw [List.mem_singleton.1 he]
      exact .inr (.inl (h ▸ ht))
  have many {c : Build (List Edge)} {name : String} (ht : t.kind.rule? = some name)
      (hc : Yields (fun es => ∀ e ∈ es, e.rule = name) c) :
      Yields (fun es => ∀ e ∈ es, t.Refers e) c :=
    fun s e he => .inr (.inl (hc s e he ▸ ht))
  cases t with
  | cpp t => exact one rfl t.rule_edge
  | cpps t =>
      exact many rfl (yields_bind fun _ => yields_bind fun _ =>
        yields_each (fun _ => yields_bind fun _ => Preprocessing.rule_edge _) _)
  | copy t => exact many rfl (t.rule_edges .copy)
  | magick t =>
      exact one rfl (yields_bind fun _ => yields_bind fun _ => yields_bind fun _ =>
        yields_pure rfl)
  | rsvgConvert t =>
      exact one rfl (yields_bind fun _ => yields_bind fun _ => yields_bind fun _ =>
        yields_pure rfl)
  | minify t =>
      refine many rfl ((t.rule_edges .minify).bind fun edges h => yields_bind fun _ =>
        yields_pure fun e he => ?_)
      obtain ⟨e', he', rfl⟩ := List.mem_map.1 he
      exact h e' he'
  | zip t =>
      exact one rfl (yields_bind fun _ => yields_bind fun _ => yields_bind fun _ =>
        yields_bind fun _ => yields_pure rfl)
  | regen t => exact one rfl t.rule_edge
  | rsync t =>
      refine yields_bind fun _ => yields_bind fun _ => yields_bind fun _ => ?_
      split
      · exact yields_bind fun _ => yields_pure (by simp)
      · split
        · exact yields_pure (by simp)
        · refine yields_bind fun _ => yields_bind fun _ => yields_pure fun e he => ?_
          rcases List.mem_cons.1 he with rfl | he
          · exact .inr (.inl rfl)
          · rw [List.mem_singleton.1 he]
            exact .inr (.inr ⟨rfl, rfl⟩)
  | core e =>
      refine yields_pure fun e' he => ?_
      rw [List.mem_singleton.1 he]
      exact .inl rfl

end BuildGraph
