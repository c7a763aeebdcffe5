import BuildGraph.Files
import BuildGraph.Keyword
import BuildGraph.Problem
import BuildGraph.Registry
import BuildGraph.Toolset

/-!
# Sessions

A session is everything that expanding a description reads and changes: the values of the
keywords, the problems recorded so far, the registered rules, and the files.  Keywords keep their
values for the whole session; problems and rules are only added, until a report takes the problems
away.
-/

namespace BuildGraph

/-- Values of keywords; a keyword may have none. -/
abbrev KeywordValues := Keyword → Option String

/-- The state of an expansion. -/
structure Session where
  keywords : KeywordValues := fun _ => none
  errors : List Problem := []
  warnings : List Problem := []
  rules : Registry := .empty
  files : Files := {}
  deriving Inhabited

/-- A computation that reads and changes a session. -/
abbrev Build := StateM Session

/-- The results of a computation for each item of a list, in order. -/
def Build.each {α β : Type} (step : α → Build β) : List α → Build (List β)
  | [] => pure []
  | a :: rest => do
    let b ← step a
    let bs ← Build.each step rest
    pure (b :: bs)

namespace Session

/-! ## Problems -/

/-- The session with one more error. -/
def addError (s : Session) (p : Problem) : Session := { s with errors := s.errors ++ [p] }

/-- The session with more errors. -/
def addErrors (s : Session) (ps : List Problem) : Session := { s with errors := s.errors ++ ps }

/-- The session with one more warning. -/
def addWarning (s : Session) (p : Problem) : Session := { s with warnings := s.warnings ++ [p] }

/-- The session with more warnings. -/
def addWarnings (s : Session) (ps : List Problem) : Session :=
  { s with warnings := s.warnings ++ ps }

@[simp] theorem addErrors_nil (s : Session) : s.addErrors [] = s := by
  simp [addErrors]

theorem addErrors_addErrors (s : Session) (ps qs : List Problem) :
    (s.addErrors ps).addErrors qs = s.addErrors (ps ++ qs) := by
  simp [addErrors]

@[simp] theorem keywords_addErrors (s : Session) (ps : List Problem) :
    (s.addErrors ps).keywords = s.keywords := rfl

/-- Whether an error was recorded since the last report. -/
def hasFailed (s : Session) : Bool := !s.errors.isEmpty

/-- The problems recorded since the last report, and the session without them. -/
def takeReport (s : Session) : Report × Session :=
  ({ errors := s.errors, warnings := s.warnings }, { s with errors := [], warnings := [] })

/-! ## Rules -/

/-- Whether a rule of this name is registered. -/
def knows (s : Session) (name : String) : Bool := s.rules.contains name

/-- The session with a rule registered; a conflict is an error. -/
def register (s : Session) (rule : Rule) : Session :=
  match s.rules.register rule with
  | (.conflict, rules) => { s with rules }.addError (.ruleConflict rule.name)
  | (_, rules) => { s with rules }

/-! ## Invocations -/

/-- Name of the directory of all outputs, in the working directory. -/
def outDirectory : String := "out"

/-- Keyword values of a run in the working directory `cwd` on a description file.

The directory of the description is the current input directory; the current output directory
lies below the output directory as the description's directory lies below `cwd`. -/
def invocationKeywords (cwd file command : String) (tools : Toolset) : KeywordValues :=
  let file := Path.join cwd file
  let inputDir := (Path.parent? file).getD cwd
  let below := (Path.below? cwd inputDir).getD ""
  let outputDir := Path.append cwd outDirectory
  fun
    | .inputDir => some cwd
    | .outputDir => some outputDir
    | .currentInputDir => some inputDir
    | .currentOutputDir => some (Path.join outputDir below)
    | .ownCommand => some command
    | .descriptionFile => some file
    | .bashCommand => some tools.bash
    | .clangCommand => some tools.clang
    | .copyCommand => some tools.copy
    | .magickCommand => some tools.magick
    | .rsvgConvertCommand => some tools.rsvgConvert
    | .touchCommand => some tools.touch

/-- The session at the start of such a run. -/
def ofInvocation (cwd file command : String) (tools : Toolset) (files : Files) : Session where
  keywords := invocationKeywords cwd file command tools
  files := files

end Session

end BuildGraph
