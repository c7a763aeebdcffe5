/-!
# Toolset

The commands of the programs that rules run.  Each has a bare name as its default, which a
non-empty environment variable replaces.
-/

namespace BuildGraph

/-- Commands of the programs that rules and the command line run. -/
structure Toolset where
  bash : String := "bash"
  clang : String := "clang"
  copy : String := "cp"
  magick : String := "magick"
  rsvgConvert : String := "rsvg-convert"
  touch : String := "touch"
  ninja : String := "ninja"
  rsync : String := "rsync"
  deriving DecidableEq, Repr, Inhabited

namespace Toolset

/-- The bare names. -/
def bare : Toolset := {}

/-- The value of a variable, or a default where it is unset or empty. -/
def valueOr (env : String → Option String) (name default : String) : String :=
  match env name with
  | none => default
  | some value => if value = "" then default else value

/-- The variables that replace the bare names. -/
def variableNames : List String :=
  ["HAGA_BASH", "HAGA_CLANG", "HAGA_COPY", "HAGA_MAGICK", "HAGA_RSVG_CONVERT", "HAGA_TOUCH",
   "HAGA_NINJA", "HAGA_RSYNC"]

/-- The bare names, replaced where the environment says so. -/
def ofEnvironment (env : String → Option String) : Toolset where
  bash := valueOr env "HAGA_BASH" bare.bash
  clang := valueOr env "HAGA_CLANG" bare.clang
  copy := valueOr env "HAGA_COPY" bare.copy
  magick := valueOr env "HAGA_MAGICK" bare.magick
  rsvgConvert := valueOr env "HAGA_RSVG_CONVERT" bare.rsvgConvert
  touch := valueOr env "HAGA_TOUCH" bare.touch
  ninja := valueOr env "HAGA_NINJA" bare.ninja
  rsync := valueOr env "HAGA_RSYNC" bare.rsync

end Toolset

end BuildGraph
