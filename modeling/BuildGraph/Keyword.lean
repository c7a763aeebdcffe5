/-!
# Keywords

A keyword is a name that a description may use in place of a text it cannot know: a directory of
the run, or the command of a tool.  The set is closed; any other name is unknown.
-/

namespace BuildGraph

/-- The names that stand for directories and commands of a run. -/
inductive Keyword where
  /-- The working directory, root of all inputs. -/
  | inputDir
  /-- Root of all outputs. -/
  | outputDir
  /-- Directory of the description. -/
  | currentInputDir
  /-- Output directory that corresponds to the directory of the description. -/
  | currentOutputDir
  | bashCommand
  | clangCommand
  | copyCommand
  /-- This program itself. -/
  | ownCommand
  /-- The description file. -/
  | descriptionFile
  | magickCommand
  | rsvgConvertCommand
  | touchCommand
  deriving DecidableEq, Repr, Inhabited

namespace Keyword

/-- Every keyword, in the order in which they are listed. -/
def all : List Keyword :=
  [.inputDir, .outputDir, .currentInputDir, .currentOutputDir, .bashCommand, .clangCommand,
   .copyCommand, .ownCommand, .descriptionFile, .magickCommand, .rsvgConvertCommand,
   .touchCommand]

/-- The spelling of a keyword in descriptions and messages. -/
def name : Keyword → String
  | .inputDir => "INPUT_DIR"
  | .outputDir => "OUTPUT_DIR"
  | .currentInputDir => "CURRENT_INPUT_DIR"
  | .currentOutputDir => "CURRENT_OUTPUT_DIR"
  | .bashCommand => "BASH_COMMAND"
  | .clangCommand => "CLANG_COMMAND"
  | .copyCommand => "COPY_COMMAND"
  | .ownCommand => "HAGA_COMMAND"
  | .descriptionFile => "HAGA_INPUT_HAGAFILE"
  | .magickCommand => "MAGICK_COMMAND"
  | .rsvgConvertCommand => "RSVG_CONVERT_COMMAND"
  | .touchCommand => "TOUCH_COMMAND"

/-- The keyword with a given spelling. -/
def ofName? (s : String) : Option Keyword := all.find? (·.name == s)

/-- Position of a keyword in `all`. -/
def index (k : Keyword) : Nat := all.idxOf k

@[simp] theorem ofName?_name (k : Keyword) : ofName? k.name = some k := by
  cases k <;> decide

/-- Only the spelling of a keyword is read as that keyword. -/
theorem name_of_ofName? {s : String} {k : Keyword} (h : ofName? s = some k) : k.name = s := by
  have := List.find?_some h
  simpa using this

end Keyword

end BuildGraph
