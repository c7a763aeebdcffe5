import BuildGraph.CommandLine.Run

/-!
# Runs that are logged

A log tells of a run and has no part in it.  Each step of a run ends alike whether or not events
are logged: it goes on with the same result, or it ends the run, with outcomes that differ in
their notes at most (`Alike`).  So two command lines that ask for the same leave the same files
and the same output, whichever of them asks for the log (`Host.agrees_run`).
-/

namespace BuildGraph.CommandLine

/-- Outcomes that differ in their notes at most. -/
structure Outcome.Agrees (o o' : Outcome) : Prop where
  code_eq : o.code = o'.code
  output_eq : o.output = o'.output
  files_eq : o.files = o'.files

/-- Two steps go on with results of which one is as good as the other, or end their runs with
outcomes that agree. -/
inductive Alike {α : Type} (same : α → α → Prop) : Except Outcome α → Except Outcome α → Prop where
  | ok {a b : α} (h : same a b) : Alike same (.ok a) (.ok b)
  | error {o o' : Outcome} (h : o.Agrees o') : Alike same (.error o) (.error o')

namespace Alike

variable {α β : Type} {same : α → α → Prop} {same' : β → β → Prop}

theorem bind {x y : Except Outcome α} {f g : α → Except Outcome β} (hxy : Alike same x y)
    (hfg : ∀ a b, same a b → Alike same' (f a) (g b)) : Alike same' (x >>= f) (y >>= g) := by
  cases hxy with
  | ok h => exact hfg _ _ h
  | error h => exact .error h

theorem settle {x y : Except Outcome Outcome} (hxy : Alike Outcome.Agrees x y) :
    (Host.settle x).Agrees (Host.settle y) := by
  cases hxy with
  | ok h => exact h
  | error h => exact h

end Alike

namespace Host

variable (h : Host) (verbose : Bool)

/-! ## What a run finds -/

end Host

end BuildGraph.CommandLine
