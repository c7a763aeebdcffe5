import BuildGraph.Target.Edges

/-!
# Composing computations

A computation *composes* when it reads nothing of a session but the values of the keywords and
changes nothing but the list of errors, to which it adds.  Its result and the errors it adds are
then functions of the keyword values (`Build.valueAt`, `Build.problemsAt`), and every other part
of the session is left as it was.

A computation that is made of look-ups of keywords and reports of missing names, and of nothing
else (`Build.Composed`), composes.  Templates, paths, rules and the edges of every kind of target
but one are made so.  The exception is a deployment, which also reads and writes files and records
warnings.
-/

namespace BuildGraph

namespace Build

variable {α β : Type}

/-! ## Results and errors at keyword values -/

/-- What a computation gives in a session that holds keyword values alone. -/
def valueAt (c : Build α) (k : KeywordValues) : α := (c.run { keywords := k }).1

/-- The errors that a computation records in such a session. -/
def problemsAt (c : Build α) (k : KeywordValues) : List Problem :=
  (c.run { keywords := k }).2.errors

/-- Nothing but keyword values is read, and nothing but errors is added. -/
def Composes (c : Build α) : Prop :=
  ∀ s : Session, c.run s = (c.valueAt s.keywords, s.addErrors (c.problemsAt s.keywords))

theorem run_bind (c : Build α) (f : α → Build β) (s : Session) :
    (c >>= f).run s = (f (c.run s).1).run (c.run s).2 := rfl

theorem run_pure (a : α) (s : Session) : (pure a : Build α).run s = (a, s) := rfl

/-- A computation composes if its run is described by functions of the keyword values. -/
theorem composes_of_run {c : Build α} (value : KeywordValues → α)
    (problems : KeywordValues → List Problem)
    (h : ∀ s : Session, c.run s = (value s.keywords, s.addErrors (problems s.keywords))) :
    c.Composes := by
  intro s
  have hv : c.valueAt s.keywords = value s.keywords := by rw [valueAt, h]
  have hp : c.problemsAt s.keywords = problems s.keywords := by
    rw [problemsAt, h]
    simp [Session.addErrors]
  rw [h, hv, hp]

theorem composes_pure (a : α) : (pure a : Build α).Composes :=
  composes_of_run (fun _ => a) (fun _ => []) fun s => by
    rw [run_pure, Session.addErrors_nil]

/-- The run of a sequence of two composing computations. -/
theorem Composes.run_bind {c : Build α} {f : α → Build β} (hc : c.Composes)
    (hf : ∀ a, (f a).Composes) (s : Session) :
    (c >>= f).run s = ((f (c.valueAt s.keywords)).valueAt s.keywords,
      s.addErrors (c.problemsAt s.keywords
        ++ (f (c.valueAt s.keywords)).problemsAt s.keywords)) := by
  rw [Build.run_bind, hc s, hf _ _, Session.keywords_addErrors, Session.addErrors_addErrors]

theorem Composes.bind {c : Build α} {f : α → Build β} (hc : c.Composes)
    (hf : ∀ a, (f a).Composes) : (c >>= f).Composes :=
  composes_of_run (fun k => (f (c.valueAt k)).valueAt k)
    (fun k => c.problemsAt k ++ (f (c.valueAt k)).problemsAt k) (hc.run_bind hf)

theorem valueAt_pure (a : α) (k : KeywordValues) : (pure a : Build α).valueAt k = a := rfl

theorem composes_reportMissing (name : String) : (reportMissing name).Composes :=
  composes_of_run (fun _ => "") (fun _ => [.missingKeyword name]) fun _ => rfl

end Build

open Build

/-! ## Keywords -/

namespace Keyword

/-- The text that a keyword stands for, empty if it has no value. -/
def textAt (k : Keyword) (values : KeywordValues) : String := (values k).getD ""

/-- The error that a keyword without a value gives. -/
def problemsOf (k : Keyword) (values : KeywordValues) : List Problem :=
  if (values k).isSome then [] else [.missingKeyword k.name]

theorem run_value (k : Keyword) (s : Session) :
    k.value.run s = (k.textAt s.keywords, s.addErrors (k.problemsOf s.keywords)) := by
  cases h : s.keywords k with
  | some text =>
      have hrun : k.value.run s = (text, s) := by
        unfold value
        simp only [StateT.run_bind, StateT.run_get, pure_bind, h]
        rfl
      rw [hrun, textAt, problemsOf, h]
      exact congrArg (Prod.mk text) (Session.addErrors_nil s).symm
  | none =>
      have hrun : k.value.run s = (reportMissing k.name).run s := by
        unfold value
        simp only [StateT.run_bind, StateT.run_get, pure_bind, h]
      rw [hrun, textAt, problemsOf, h]
      rfl

theorem composes_value (k : Keyword) : k.value.Composes :=
  composes_of_run k.textAt k.problemsOf k.run_value

@[simp] theorem valueAt_value (k : Keyword) (values : KeywordValues) :
    k.value.valueAt values = k.textAt values := by
  rw [valueAt, run_value]

end Keyword

/-! ## Composed computations -/

namespace Build

/-- A computation is made of look-ups of keywords and reports of missing names. -/
inductive Composed : {α : Type} → Build α → Prop where
  | pure {α : Type} (a : α) : Composed (pure a : Build α)
  | value (k : Keyword) : Composed k.value
  | reportMissing (name : String) : Composed (reportMissing name)
  | bind {α β : Type} {c : Build α} {f : α → Build β} (hc : Composed c)
      (hf : ∀ a, Composed (f a)) : Composed (c >>= f)

namespace Composed

variable {α β : Type}

theorem composes {c : Build α} (hc : c.Composed) : c.Composes := by
  induction hc with
  | pure a => exact composes_pure a
  | value k => exact k.composes_value
  | reportMissing name => exact composes_reportMissing name
  | bind _ _ ihc ihf => exact ihc.bind ihf

theorem valueAt_bind {c : Build α} {f : α → Build β} (hc : c.Composed)
    (hf : ∀ a, (f a).Composed) (k : KeywordValues) :
    (c >>= f).valueAt k = (f (c.valueAt k)).valueAt k := by
  rw [valueAt, hc.composes.run_bind fun a => (hf a).composes]

/-- A loop over composed steps is composed. -/
theorem each {step : α → Build β} (h : ∀ a, (step a).Composed) (l : List α) :
    (Build.each step l).Composed := by
  induction l with
  | nil => exact .pure []
  | cons a l ih => exact (h a).bind fun b => ih.bind fun bs => .pure (b :: bs)

theorem valueAt_each {step : α → Build β} (h : ∀ a, (step a).Composed) (l : List α)
    (k : KeywordValues) : (Build.each step l).valueAt k = l.map fun a => (step a).valueAt k := by
  induction l with
  | nil => rfl
  | cons a l ih =>
      have htail (b : β) : (Build.each step l >>= fun bs => Pure.pure (b :: bs)).Composed :=
        (each h l).bind fun bs => .pure (b :: bs)
      rw [Build.each, (h a).valueAt_bind htail, (each h l).valueAt_bind fun bs => .pure _,
        valueAt_pure, ih, List.map_cons]

end Composed

end Build

/-! ## Templates -/

namespace Keyword

theorem composed_pathOf (k : Keyword) (name : String) : (k.pathOf name).Composed :=
  (Composed.value k).bind fun _ => .pure _

@[simp] theorem valueAt_pathOf (k : Keyword) (name : String) (values : KeywordValues) :
    (k.pathOf name).valueAt values = Path.join (k.textAt values) name := by
  rw [pathOf, (Composed.value k).valueAt_bind fun _ => .pure _, valueAt_pure, valueAt_value]

end Keyword

namespace Fragment

theorem composed_compose : ∀ f : Fragment, f.compose.Composed
  | .literal text => .pure text
  | .keyword k => .value k
  | .unknown name => .reportMissing name

theorem composed_composeAll : ∀ fs : List Fragment, (composeAll fs).Composed
  | [] => .pure ""
  | f :: fs =>
      f.composed_compose.bind fun _ => (composed_composeAll fs).bind fun _ => .pure _

/-- The text of a fragment, empty for a name without value. -/
def textAt (values : KeywordValues) : Fragment → String
  | .literal text => text
  | .keyword k => k.textAt values
  | .unknown _ => ""

theorem valueAt_compose (f : Fragment) (values : KeywordValues) :
    f.compose.valueAt values = f.textAt values := by
  cases f with
  | literal text => rfl
  | keyword k => exact k.valueAt_value values
  | unknown name => rfl

theorem valueAt_composeAll (fs : List Fragment) (values : KeywordValues) :
    (composeAll fs).valueAt values = Text.concat (fs.map (textAt values)) := by
  induction fs with
  | nil => rfl
  | cons f fs ih =>
      rw [composeAll, f.composed_compose.valueAt_bind fun _ =>
        (composed_composeAll fs).bind fun _ => .pure _,
        (composed_composeAll fs).valueAt_bind fun _ => .pure _, valueAt_pure, ih,
        valueAt_compose]
      rfl

end Fragment

namespace Template

theorem composed_compose : ∀ t : Template, t.compose.Composed
  | .literal text => .pure text
  | .composed fs => Fragment.composed_composeAll fs

/-- The text of a template: its fragments' texts one after the other. -/
def textAt (t : Template) (values : KeywordValues) : String :=
  Text.concat (t.fragments.map (Fragment.textAt values))

@[simp] theorem textAt_ofKeyword (k : Keyword) (values : KeywordValues) :
    (ofKeyword k).textAt values = k.textAt values := String.append_empty

@[simp] theorem textAt_literal (text : String) (values : KeywordValues) :
    (literal text).textAt values = text := String.append_empty

theorem valueAt_compose (t : Template) (values : KeywordValues) :
    t.compose.valueAt values = t.textAt values := by
  cases t with
  | literal text => exact String.append_empty.symm
  | composed fs => exact Fragment.valueAt_composeAll fs values

theorem composed_composeAll (ts : List Template) : (composeAll ts).Composed :=
  .each composed_compose ts

theorem valueAt_composeAll (ts : List Template) (values : KeywordValues) :
    (composeAll ts).valueAt values = ts.map (textAt · values) := by
  rw [composeAll, Composed.valueAt_each composed_compose]
  simp only [valueAt_compose]

theorem composed_composeOption : ∀ t : Option Template, (composeOption t).Composed
  | none => .pure none
  | some t => t.composed_compose.bind fun _ => .pure _

theorem valueAt_composeOption (t : Option Template) (values : KeywordValues) :
    (composeOption t).valueAt values = t.map (textAt · values) := by
  cases t with
  | none => rfl
  | some t =>
      rw [composeOption, t.composed_compose.valueAt_bind fun _ => .pure _, valueAt_compose]
      rfl

theorem composed_composeWords (ts : List Template) : (composeWords ts).Composed :=
  (composed_composeAll ts).bind fun _ => .pure _

theorem valueAt_composeWords (ts : List Template) (values : KeywordValues) :
    (composeWords ts).valueAt values = ShellWord.quoteAll (ts.map (textAt · values)) := by
  rw [composeWords, (composed_composeAll ts).valueAt_bind fun _ => .pure _, valueAt_composeAll,
    valueAt_pure]

theorem composed_composeRows (rows : List (List Template)) : (composeRows rows).Composed :=
  .each composed_composeAll rows

theorem valueAt_composeRows (rows : List (List Template)) (values : KeywordValues) :
    (composeRows rows).valueAt values = rows.map (·.map (textAt · values)) := by
  rw [composeRows, Composed.valueAt_each composed_composeAll]
  simp only [valueAt_composeAll]

theorem composed_pathIn (base name : Template) : (pathIn base name).Composed :=
  base.composed_compose.bind fun _ => name.composed_compose.bind fun _ => .pure _

theorem valueAt_pathIn (base name : Template) (values : KeywordValues) :
    (pathIn base name).valueAt values
      = Path.join (base.textAt values) (name.textAt values) := by
  rw [pathIn, base.composed_compose.valueAt_bind fun _ =>
    name.composed_compose.bind fun _ => .pure _, name.composed_compose.valueAt_bind fun _ =>
    .pure _, valueAt_pure, valueAt_compose, valueAt_compose]

theorem composed_pathsIn (base : Template) (names : List Template) :
    (pathsIn base names).Composed :=
  base.composed_compose.bind fun _ => (composed_composeAll names).bind fun _ => .pure _

@[simp] theorem valueAt_pathsIn (base : Template) (names : List Template)
    (values : KeywordValues) : (pathsIn base names).valueAt values =
      names.map fun name => Path.join (base.textAt values) (name.textAt values) := by
  rw [pathsIn, base.composed_compose.valueAt_bind fun _ =>
    (composed_composeAll names).bind fun _ => .pure _,
    (composed_composeAll names).valueAt_bind fun _ => .pure _, valueAt_pure,
    valueAt_compose, valueAt_composeAll, List.map_map]
  rfl

theorem composed_pathWithSuffix (path : Template) (suffix : String) :
    (pathWithSuffix path suffix).Composed :=
  path.composed_compose.bind fun _ => .pure _

end Template

theorem RuleTemplate.composed_compose (r : RuleTemplate) : r.compose.Composed :=
  (Template.composed_composeRows r.commands).bind fun _ =>
    (Template.composed_composeOption r.description).bind fun _ => .pure _

end BuildGraph
