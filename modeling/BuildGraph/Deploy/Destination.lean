import BuildGraph.Deploy.Config
import BuildGraph.Session

/-!
# Destinations

The first expansion of a deployment writes a config with the destination of the description, so
that there is a file to edit.  Later ones read the config and do not look at the description's
destination at all.
-/

namespace BuildGraph.Deploy

/-- A destination and where it comes from. -/
inductive Destination where
  /-- The config was missing and was written. -/
  | written (dst : String)
  /-- The config was read. -/
  | found (dst : String)
  deriving DecidableEq, Repr, Inhabited

/-- The text of a destination. -/
def Destination.dst : Destination → String
  | .written dst => dst
  | .found dst => dst

/-- The destination in the config at a path, or, where nothing is, the one of the description,
which is written there. -/
def Destination.obtain (path : String) (template : Build String) :
    Build (Except Config.Error Destination) := do
  if (← get).files.pathExists path then
    pure ((Config.read (← get).files path).map .found)
  else
    let dst ← template
    match Config.create (← get).files path dst with
    | .error e => pure (.error e)
    | .ok files =>
      modify fun s => { s with files }
      pure (.ok (.written dst))

end BuildGraph.Deploy
