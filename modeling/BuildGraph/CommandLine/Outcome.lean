import BuildGraph.CommandLine.Color
import BuildGraph.Files
import BuildGraph.Problem
import BuildGraph.Text

/-!
# Outcomes

What a run writes and how it ends.  Beside its output a run leaves notes, one a line, each with a
symbol for its kind.  A failure is the last note; it is shown with its causes, each under the one
it explains, and the lines of a cause that has several stay under its first.
-/

namespace BuildGraph.CommandLine

/-- Why a run failed, from the outermost cause to the innermost. -/
structure Failure where
  message : String
  causes : List String := []
  deriving DecidableEq, Repr, Inhabited

namespace Failure

/-- A cause with each further line of it under its first. -/
def indented (first rest : String) (cause : String) : String :=
  first ++ String.ofList (cause.toList.flatMap fun c =>
    if c = '\n' then '\n' :: rest.toList else [c])

/-- A number in a column of five characters. -/
def column (n : Nat) : String :=
  let digits := toString n
  String.ofList (List.replicate (5 - digits.length) ' ') ++ digits

/-- Causes with their numbers. -/
def numbered (n : Nat) : List String → List String
  | [] => []
  | cause :: rest => ("\n" ++ indented (column n ++ ": ") "       " cause) :: numbered (n + 1) rest

/-- The text that is shown for a failure. -/
def render (f : Failure) : String :=
  "Error: " ++ f.message
    ++ (match f.causes with
        | [] => ""
        | [cause] => "\n\nCaused by:\n" ++ indented "    " "    " cause
        | causes => "\n\nCaused by:" ++ Text.concat (numbered 0 causes))
    ++ "\n"

end Failure

/-! ## Notes -/

/-- A line that is written beside the output. -/
inductive Note where
  /-- Something that was done. -/
  | success (message : String)
  /-- Something to know. -/
  | info (message : String)
  | warning (message : String)
  | error (message : String)
  | failure (f : Failure)
  /-- A text that is shown as it is. -/
  | text (s : String)
  deriving DecidableEq, Repr, Inhabited

/-- A line that begins with a symbol; the symbol is coloured. -/
def noteLine (colored : Bool) (color : Color) (symbol message : String) : String :=
  color.paint colored symbol ++ " " ++ message ++ "\n"

/-- The text of a note. -/
def Note.render (colored : Bool) : Note → String
  | .success message => noteLine colored .green "✓" message
  | .info message => noteLine colored .blue "•" message
  | .warning message => noteLine colored .yellow "⚠" (Color.yellow.paint colored message)
  | .error message => noteLine colored .red "✗" (Color.red.paint colored message)
  | .failure f => f.render
  | .text s => s

/-- The notes on a report, warnings first. -/
def reportNotes (r : Report) : List Note :=
  (r.warnings.map fun p => .warning p.message) ++ r.errors.map fun p => .error p.message

/-- A number with a noun. -/
def count (n : Nat) (noun : String) : String :=
  toString n ++ " " ++ noun ++ (if n = 1 then "" else "s")

/-- The numbers of problems of a report. -/
def summary (r : Report) : String :=
  count r.errors.length "error" ++ ", " ++ count r.warnings.length "warning"

/-! ## Outcomes -/

/-- What a run leaves. -/
structure Outcome where
  code : Nat := 0
  output : String := ""
  /-- What is written beside the output. -/
  notes : List Note := []
  files : Files
  deriving Inhabited

/-- The text of the notes. -/
def Outcome.notesText (o : Outcome) (colored : Bool) : String :=
  Text.concat (o.notes.map (Note.render colored))

end BuildGraph.CommandLine
