import BuildGraph.Deploy.Whitelist

/-!
# Transports

A request is carried out by a transport, and only if nothing stands against it
(`Request.carryOut_of_violations_ne_nil`).  What a transport does is up to the monad it runs in.
-/

namespace BuildGraph.Deploy

/-- Why a deployment was not carried out. -/
inductive Error where
  | refused (violations : List Violation)
  /-- The command could not be started. -/
  | notStarted (command : String) (cause : FileError)
  /-- The command ended with another code than zero. -/
  | failed (command : String) (code : Nat)
  deriving DecidableEq, Repr, Inhabited

/-- The text that is shown for an error. -/
def Error.message : Error → String
  | .refused vs => "refusing to sync: " ++ toString vs.length ++ " validation error(s)"
  | .notStarted command cause => "failed to spawn " ++ command ++ ": " ++ cause.message
  | .failed command code => command ++ " exited with code Some(" ++ toString code ++ ")"

/-- A way to make a destination equal to a directory. -/
structure Transport (m : Type → Type) where
  /-- Copies the contents of `src` to `dst` and deletes everything else there. -/
  copyOver : (src dst : String) → m (Except Error Unit)

/-- Carries out a request if nothing stands against it. -/
def Request.carryOut {m : Type → Type} [Monad m] (r : Request) (transport : Transport m)
    (fs : Files) : m (Except Error Unit) :=
  match r.violations fs with
  | [] => transport.copyOver r.srcDir r.dstDir
  | vs => pure (.error (.refused vs))

/-- A request with a violation reaches no transport. -/
theorem Request.carryOut_of_violations_ne_nil {m : Type → Type} [Monad m]
    (transport : Transport m) {fs : Files} {r : Request} (h : r.violations fs ≠ []) :
    r.carryOut transport fs = pure (.error (.refused (r.violations fs))) := by
  unfold carryOut
  split
  · next hv => exact absurd hv h
  · rfl

/-- Arguments for the program that copies the contents of `src` to `dst`; the slash at the end of
`src` stands for the contents. -/
def copyArguments (src dst : String) : List String :=
  ["-v", "--archive", "--delete", if Text.endsWith src '/' then src else src ++ "/", dst]

end BuildGraph.Deploy
