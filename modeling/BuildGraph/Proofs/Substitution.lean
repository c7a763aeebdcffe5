import BuildGraph.Proofs.RuleTable

/-!
# Substitution

Composing is substitution: every keyword is replaced by its value, and what has no value by the
empty text.  Beside the text, a session gets one error for each fragment without a value, in the
order in which the fragments are met, and nothing else in it changes.

What a computation records is told by a list of names (`Build.Reports`), and the names of a
sequence are those of its first part and then those of its second.  A template has the names of its
fragments (`Template.missing`), and whatever is composed of templates has the names of these in the
order in which they are composed (`Build.ReportsOn`), so that it is told by a list of templates; a
directory in which many names are found is composed once, before them
(`Template.reportsOn_pathsIn`).
-/

namespace BuildGraph

open Build

/-! ## Names without a value -/

/-- The name for which nothing can be put in the place of a fragment. -/
def Fragment.missing? (values : KeywordValues) : Fragment → Option String
  | .literal _ => none
  | .keyword k => if (values k).isSome then none else some k.name
  | .unknown name => some name

/-- The names without a value in a template, one for each fragment, from left to right. -/
def Template.missing (values : KeywordValues) (t : Template) : List String :=
  t.fragments.filterMap (Fragment.missing? values)

namespace Session

/-- The session with an error for each of these names. -/
def addMissing (s : Session) (names : List String) : Session :=
  s.addErrors (names.map .missingKeyword)

theorem addMissing_nil (s : Session) : s.addMissing [] = s := s.addErrors_nil

theorem addMissing_addMissing (s : Session) (names names' : List String) :
    (s.addMissing names).addMissing names' = s.addMissing (names ++ names') := by
  rw [addMissing, addMissing, addErrors_addErrors, ← List.map_append, addMissing]

end Session

/-! ## Reports of missing names -/

namespace Build

variable {α β : Type} {values : KeywordValues} {names names' : List String}

/-- In every session with these keyword values a computation records errors for these names, in
this order, and changes nothing else. -/
def Reports (values : KeywordValues) (names : List String) (c : Build α) : Prop :=
  ∀ s : Session, s.keywords = values → (c.run s).2 = s.addMissing names

theorem reports_pure (a : α) : Reports values [] (pure a : Build α) :=
  fun s _ => s.addMissing_nil.symm

theorem Reports.bind {c : Build α} {f : α → Build β} (hc : Reports values names c)
    (hf : ∀ a, Reports values names' (f a)) : Reports values (names ++ names') (c >>= f) := by
  intro s hs
  have hkeywords : (c.run s).2.keywords = values := by
    rw [hc s hs]
    exact hs
  rw [run_bind, hf _ _ hkeywords, hc s hs, Session.addMissing_addMissing]

/-- What only puts a result together reports nothing. -/
theorem Reports.bind_pure {c : Build α} (hc : Reports values names c) (f : α → β) :
    Reports values names (c >>= fun a => pure (f a)) := by
  have h := hc.bind fun a => reports_pure (f a)
  rwa [List.append_nil] at h

/-- A computation reports the names without a value in these templates. -/
def ReportsOn (values : KeywordValues) (ts : List Template) (c : Build α) : Prop :=
  Reports values (ts.flatMap (Template.missing values)) c

namespace ReportsOn

variable {ts ts' : List Template} {c : Build α}

theorem bind {f : α → Build β} (hc : ReportsOn values ts c)
    (hf : ∀ a, ReportsOn values ts' (f a)) : ReportsOn values (ts ++ ts') (c >>= f) := by
  rw [ReportsOn, List.flatMap_append]
  exact Reports.bind hc hf

theorem bind_pure (hc : ReportsOn values ts c) (f : α → β) :
    ReportsOn values ts (c >>= fun a => pure (f a)) := Reports.bind_pure hc f

/-- A loop reports on what its items do, one after the other. -/
theorem each {step : α → Build β} {ts : α → List Template}
    (h : ∀ a, ReportsOn values (ts a) (step a)) (l : List α) :
    ReportsOn values (l.flatMap ts) (Build.each step l) := by
  induction l with
  | nil => exact reports_pure []
  | cons a l ih =>
      rw [List.flatMap_cons]
      exact (h a).bind fun b => ih.bind_pure (b :: ·)

/-- The run of a composed computation: its result at the keyword values, and the session with the
errors that it reports. -/
theorem run_eq {s : Session} (h : ReportsOn s.keywords ts c) (hc : c.Composed) :
    c.run s = (c.valueAt s.keywords,
      s.addMissing (ts.flatMap (Template.missing s.keywords))) := by
  rw [← h s rfl, hc.composes s]

end ReportsOn

end Build

/-! ## What is composed of templates -/

section Templates

variable {values : KeywordValues}

namespace Fragment

theorem reports_compose (f : Fragment) : Reports values (f.missing? values).toList f.compose := by
  cases f with
  | literal text => exact reports_pure text
  | keyword k =>
      intro s hs
      rw [compose, k.run_value, Keyword.problemsOf, missing?, hs]
      split <;> rfl
  | unknown name => exact fun s _ => rfl

theorem reports_composeAll (fs : List Fragment) :
    Reports values (fs.filterMap (missing? values)) (composeAll fs) := by
  induction fs with
  | nil => exact reports_pure ""
  | cons f fs ih =>
      have hnames : (f :: fs).filterMap (missing? values)
          = (f.missing? values).toList ++ fs.filterMap (missing? values) := by
        rw [List.filterMap_cons]
        cases f.missing? values <;> rfl
      rw [hnames]
      exact f.reports_compose.bind fun text => ih.bind_pure (text ++ ·)

end Fragment

namespace Template

theorem reportsOn_compose (t : Template) : ReportsOn values [t] t.compose := by
  rw [ReportsOn, List.flatMap_singleton]
  cases t with
  | literal text => exact reports_pure text
  | composed fs => exact Fragment.reports_composeAll fs

theorem reportsOn_composeAll (ts : List Template) : ReportsOn values ts (composeAll ts) := by
  have h : ReportsOn values (ts.flatMap ([·])) (composeAll ts) := .each reportsOn_compose ts
  rwa [List.flatMap_singleton'] at h

theorem reportsOn_composeOption (t : Option Template) :
    ReportsOn values t.toList (composeOption t) := by
  cases t with
  | none => exact reports_pure none
  | some t => exact t.reportsOn_compose.bind_pure some

theorem reportsOn_composeWords (ts : List Template) : ReportsOn values ts (composeWords ts) :=
  (reportsOn_composeAll ts).bind_pure ShellWord.quoteAll

theorem reportsOn_composeRows (rows : List (List Template)) :
    ReportsOn values rows.flatten (composeRows rows) := by
  rw [List.flatten_eq_flatMap]
  exact .each reportsOn_composeAll rows

theorem reportsOn_pathIn (base name : Template) :
    ReportsOn values [base, name] (pathIn base name) :=
  base.reportsOn_compose.bind fun base => name.reportsOn_compose.bind_pure (Path.join base)

/-- The directory is composed once, however many names there are. -/
theorem reportsOn_pathsIn (base : Template) (names : List Template) :
    ReportsOn values (base :: names) (pathsIn base names) :=
  base.reportsOn_compose.bind fun base =>
    (reportsOn_composeAll names).bind_pure (List.map (Path.join base))

end Template

theorem RuleTemplate.reportsOn_compose (r : RuleTemplate) :
    ReportsOn values (r.commands.flatten ++ r.description.toList) r.compose :=
  (Template.reportsOn_composeRows r.commands).bind fun _ =>
    (Template.reportsOn_composeOption r.description).bind_pure _

end Templates

/-- Templates, words of a shell, commands, paths and rules are composed by substitution: every
keyword gives way to its value, and a keyword without one, like any other name, to the empty text;
words are quoted and paths joined when that is done.  For each fragment without a value one error is
recorded, the directory of paths before their names and the commands of a rule before its
description, and the session is otherwise as it was. -/
theorem Session.composes_by_substitution (s : Session) :
    let text (t : Template) := t.textAt s.keywords
    let record (ts : List Template) := s.addMissing (ts.flatMap (Template.missing s.keywords))
    (∀ t : Template, t.compose.run s = (text t, record [t]))
      ∧ (∀ words, (Template.composeWords words).run s
        = (ShellWord.quoteAll (words.map text), record words))
      ∧ (∀ rows, (Template.composeRows rows).run s = (rows.map (·.map text), record rows.flatten))
      ∧ (∀ base name, (Template.pathIn base name).run s
        = (Path.join (text base) (text name), record [base, name]))
      ∧ (∀ base names, (Template.pathsIn base names).run s
        = (names.map fun name => Path.join (text base) (text name), record (base :: names)))
      ∧ ∀ r : RuleTemplate, r.compose.run s = ({
          name := r.name
          commands := r.commands.map (·.map text)
          description := r.description.map text
          generator := r.generator
          restat := r.restat }, record (r.commands.flatten ++ r.description.toList)) := by
  intro text record
  refine ⟨fun t => ?_, fun words => ?_, fun rows => ?_, fun base name => ?_,
    fun base names => ?_, fun r => ?_⟩
  · rw [t.reportsOn_compose.run_eq t.composed_compose, t.valueAt_compose]
  · rw [(Template.reportsOn_composeWords words).run_eq (Template.composed_composeWords words),
      Template.valueAt_composeWords]
  · rw [(Template.reportsOn_composeRows rows).run_eq (Template.composed_composeRows rows),
      Template.valueAt_composeRows]
  · rw [(Template.reportsOn_pathIn base name).run_eq (Template.composed_pathIn base name),
      Template.valueAt_pathIn]
  · rw [(Template.reportsOn_pathsIn base names).run_eq (Template.composed_pathsIn base names),
      Template.valueAt_pathsIn]
  · rw [r.reportsOn_compose.run_eq r.composed_compose, ← RuleTemplate.ruleAt, r.ruleAt_eq]

end BuildGraph
