import BuildGraph.Description.Load
import BuildGraph.Proofs.FileGrowth

/-!
# Descriptions that require nothing

The language of descriptions has several ways to look at files, by the library's `io.open` and
`dofile` among others.  In the part of it that is evaluated here calls into the library have no
result, so the only way is to require a module, and what follows is about that part alone.

An evaluation that has a result keeps it where more can be required (`Script.Expr.refines_eval`, by
induction on the expression).  Where there are no files, nothing can be required but the library,
so a description that has a result there requires no file, and it has this result everywhere
(`Script.evaluate_of_alone`).

A file with such a description stands alone (`Description.StandsAlone`); what is loaded from it
does not change as files are added (`Description.load_of_standsAlone`).
-/

namespace BuildGraph

namespace Script

variable {α β : Type}

/-! ## Refinement -/

/-- Every result of a computation is one of another. -/
def Evaluation.Refines (c c' : Evaluation α) : Prop :=
  ∀ memory result, c.run memory = .ok result → c'.run memory = .ok result

open Evaluation (Refines)

theorem Evaluation.Refines.refl (c : Evaluation α) : Refines c c := fun _ _ => id

/-- What has no result refines everything. -/
theorem Evaluation.refines_throw (e : Error) (c : Evaluation α) : Refines (throw e) c :=
  fun _ _ h => nomatch h

theorem Evaluation.Refines.bind {c c' : Evaluation α} {f f' : α → Evaluation β}
    (hc : Refines c c') (hf : ∀ a, Refines (f a) (f' a)) : Refines (c >>= f) (c' >>= f') := by
  intro memory result h
  rw [StateT.run_bind] at h ⊢
  cases hrun : c.run memory with
  | error e =>
      rw [hrun] at h
      cases h
  | ok r =>
      rw [hrun] at h
      rw [hc memory r hrun]
      exact hf r.1 r.2 result h

/-- The same names, and at least as much that can be required. -/
structure Environment.Extends (env env' : Environment) : Prop where
  globals_eq : env'.globals = env.globals
  require (argument : Value) : Evaluation.Refines (env.require argument) (env'.require argument)

/-! ## Expressions -/

section Expressions

variable {env env' : Environment} (h : env.Extends env')
include h

theorem Environment.Extends.valueOf (scope : Scope) (name : String) :
    Refines (env.valueOf scope name) (env'.valueOf scope name) := by
  unfold Environment.valueOf
  rw [h.globals_eq]
  exact .refl _

theorem Environment.Extends.call (f argument : Value) :
    Refines (env.call f argument) (env'.call f argument) := by
  unfold Environment.call
  split
  · exact h.require argument
  · exact .refl _

mutual

theorem Expr.refines_eval (scope : Scope) :
    (e : Expr) → Refines (e.eval env scope) (e.eval env' scope)
  | .constant v => by
      rw [Expr.eval, Expr.eval]
      exact .refl _
  | .name s => by
      rw [Expr.eval, Expr.eval]
      exact h.valueOf scope s
  | .index t key => by
      rw [Expr.eval, Expr.eval]
      exact (t.refines_eval scope).bind fun _ => (key.refines_eval scope).bind fun _ => .refl _
  | .concat left right => by
      rw [Expr.eval, Expr.eval]
      exact (left.refines_eval scope).bind fun _ => (right.refines_eval scope).bind fun _ => .refl _
  | .call f argument => by
      rw [Expr.eval, Expr.eval]
      exact (f.refines_eval scope).bind fun f => (argument.refines_eval scope).bind fun argument =>
        (h.call f argument).bind fun _ => .refl _
  | .single e => by
      rw [Expr.eval, Expr.eval]
      exact e.refines_eval scope
  | .table fields => by
      rw [Expr.eval, Expr.eval]
      exact (Evaluation.Refines.refl _).bind fun t => fields.refines_eval scope t 1 []
  | .typed t type => by
      rw [Expr.eval, Expr.eval]
      exact (t.refines_eval scope).bind fun _ => (type.refines_eval scope).bind fun _ => .refl _

theorem Fields.refines_eval (scope : Scope) (t : Value) (next : Nat) (pending : List Value) :
    (fields : Fields) →
      Refines (fields.eval env scope t next pending) (fields.eval env' scope t next pending)
  | .done => by
      rw [Fields.eval, Fields.eval]
      exact .refl _
  | .positional e rest => by
      by_cases hcall : ∃ f argument, e = .call f argument ∧ rest = .done
      · -- The last field may give several values.
        obtain ⟨f, argument, rfl, rfl⟩ := hcall
        rw [Fields.eval, Fields.eval]
        exact (f.refines_eval scope).bind fun f => (argument.refines_eval scope).bind
          fun argument => (h.call f argument).bind fun _ => .refl _
      · have hplain : ∀ f argument, e = .call f argument → rest = .done → False :=
          fun f argument he hrest => hcall ⟨f, argument, he, hrest⟩
        rw [Fields.eval.eq_3 _ _ _ _ _ _ _ hplain, Fields.eval.eq_3 _ _ _ _ _ _ _ hplain]
        exact (e.refines_eval scope).bind fun v => rest.refines_eval scope _ _ _
  | .keyed key e rest => by
      rw [Fields.eval, Fields.eval]
      refine (key.refines_eval scope).bind fun key => (e.refines_eval scope).bind fun v => ?_
      cases key.key? with
      | none => exact .refl _
      | some key => exact rest.refines_eval scope _ _ _

end

theorem refines_evalStatements (scope : Scope) (statements : List Statement) :
    Refines (evalStatements env scope statements) (evalStatements env' scope statements) := by
  induction statements generalizing scope with
  | nil => exact .refl _
  | cons statement rest ih =>
      cases statement with
      | define name e => exact (e.refines_eval h scope).bind fun v => ih ((name, v) :: scope)
      | run e => exact (e.refines_eval h scope).bind fun _ => ih scope

theorem Chunk.refines_eval (c : Chunk) : Refines (c.eval env) (c.eval env') := by
  refine (refines_evalStatements h [] c.statements).bind fun scope => ?_
  cases c.result with
  | none => exact .refl _
  | some e => exact e.refines_eval h scope

end Expressions

/-! ## Modules -/

/-- Where there are no files, no file can be read. -/
theorem exists_read_eq_error {fs : Files} (h : fs.entries = []) (p : String) :
    ∃ cause, fs.read p = .error cause := by
  rw [Files.read]
  cases hstat : fs.stat p with
  | error cause => exact ⟨cause, rfl⟩
  | ok e =>
      obtain ⟨l, -, hl⟩ := Files.stat_eq_ok_iff.1 hstat
      obtain rfl : e = .directory := by
        by_cases hroot : l = []
        · rw [hroot, Files.lookup_root] at hl
          exact (Option.some.inj hl).symm
        · rw [Files.lookup_of_ne_nil fs hroot, h] at hl
          cases hl
      exact ⟨.isDirectory, rfl⟩

/-- What can be required where there are no files can be required everywhere. -/
theorem refines_requireModule (fs : Files) (modulePath : String) (globals : Value) (left : Nat)
    (argument : Value) :
    Refines (requireModule {} modulePath globals left argument)
      (requireModule fs modulePath globals left argument) := by
  cases left with
  | zero => exact .refl _
  | succ left =>
      rw [requireModule, requireModule]
      refine (Evaluation.Refines.refl _).bind fun name => (Evaluation.Refines.refl _).bind
        fun memory => ?_
      cases hknown : (memory.module name).isTrue with
      | true =>
          simp only [hknown, if_true]
          exact .refl _
      | false =>
          -- Without files a module that was not required before is not found, or not read.
          simp only [hknown, Bool.false_eq_true, if_false]
          cases (modulePaths modulePath name).find? (Files.pathExists {}) with
          | none => exact Evaluation.refines_throw _ _
          | some path =>
              obtain ⟨cause, hread⟩ :=
                exists_read_eq_error (show Files.entries {} = [] from rfl) path
              have hnone : readModule {} (maxDepth - 1 - left) path = none := by
                rw [readModule, hread]
              simp only [hnone]
              exact Evaluation.refines_throw _ _

theorem Evaluation.Refines.resultOf {c c' : Evaluation Value} (hc : Refines c c')
    {globals v : Value} (h : Script.resultOf globals c = .ok v) :
    Script.resultOf globals c' = .ok v := by
  rw [Script.resultOf] at h ⊢
  cases hrun : c.run (startMemory globals) with
  | error e =>
      rw [hrun] at h
      cases h
  | ok r =>
      rw [hrun] at h
      rw [hc _ r hrun]
      exact h

/-- A description that has a result where there are no files has it everywhere. -/
theorem evaluate_of_alone {modulePath directory text : String} {v : Value}
    (h : evaluate {} modulePath directory text = .ok v) (fs : Files) :
    evaluate fs modulePath directory text = .ok v := by
  rw [evaluate] at h ⊢
  cases hread : Chunk.readLenient (Token.ofBytes text.toUTF8) with
  | error flaw =>
      rw [hread] at h
      cases h
  | ok chunk =>
      rw [hread] at h
      simp only at h ⊢
      refine Evaluation.Refines.resultOf (chunk.refines_eval ?_) h
      exact ⟨rfl, refines_requireModule fs modulePath _ _⟩

end Script

/-! ## Descriptions -/

namespace Description

/-- The file of a description requires no other: its text has a result where there are no files. -/
def StandsAlone (fs : Files) (modulePath path : String) : Prop :=
  ∃ canonical text v, fs.canonicalize path = .ok canonical ∧ fs.readText canonical = .ok text
    ∧ Script.evaluate {} modulePath ((Path.parent? canonical).getD "") text = .ok v

/-- A description is loaded from the result that its text has where there are no files. -/
theorem load_of_evaluate {fs : Files} {modulePath path canonical text : String}
    {v : Script.Value} (hcanonical : fs.canonicalize path = .ok canonical)
    (htext : fs.readText canonical = .ok text)
    (hv : Script.evaluate {} modulePath ((Path.parent? canonical).getD "") text = .ok v) :
    load fs modulePath path = (ofValue v).mapError (.script path) := by
  have hexists : fs.pathExists path = true := by
    obtain ⟨l, hl, -⟩ := Files.exists_locate_of_canonicalize hcanonical
    exact Files.pathExists_iff.2 (Files.locate_eq_ok_iff.1 hl).1
  have heval : evaluateFile fs modulePath path = .ok v := by
    rw [evaluateFile, hcanonical]
    simp only [htext]
    exact Script.evaluate_of_alone hv fs
  rw [load, if_pos hexists, heval]
  rfl

/-- A description that is read where there are no files is loaded, and its file stands alone. -/
theorem load_of_text {fs : Files} {modulePath path canonical text : String} {d : Description}
    (hcanonical : fs.canonicalize path = .ok canonical)
    (htext : fs.readText canonical = .ok text)
    (hd : ((Script.evaluate {} modulePath ((Path.parent? canonical).getD "") text).bind
      ofValue).toOption = some d) :
    load fs modulePath path = .ok d ∧ StandsAlone fs modulePath path := by
  cases hv : Script.evaluate {} modulePath ((Path.parent? canonical).getD "") text with
  | error =>
      rw [hv] at hd
      cases hd
  | ok v =>
      rw [hv] at hd
      change (ofValue v).toOption = some d at hd
      refine ⟨?_, canonical, text, v, hcanonical, htext, hv⟩
      rw [load_of_evaluate hcanonical htext hv]
      cases hread : ofValue v with
      | error =>
          rw [hread] at hd
          cases hd
      | ok =>
          rw [hread] at hd
          exact congrArg Except.ok (Option.some.inj hd)

/-- What is loaded from a file that stands alone stays as it is as files grow. -/
theorem load_of_standsAlone {fs more : Files} {modulePath path : String}
    (h : StandsAlone fs modulePath path) (hmore : fs.Extends more) :
    load more modulePath path = load fs modulePath path := by
  obtain ⟨canonical, text, v, hcanonical, htext, hv⟩ := h
  obtain ⟨e, hstat⟩ : ∃ e, fs.stat canonical = .ok e := by
    cases hstat : fs.stat canonical with
    | ok e => exact ⟨e, rfl⟩
    | error cause =>
        rw [Files.readText, Files.read, hstat] at htext
        cases htext
  rw [load_of_evaluate hcanonical htext hv, load_of_evaluate (hmore.canonicalize_eq hcanonical)
    ((hmore.readText_eq hstat).trans htext) hv]

end Description

end BuildGraph
