import BuildGraph.Files
import BuildGraph.Script.Value

/-!
# Errors of descriptions

Why a description has no result, or one that describes no targets.
-/

namespace BuildGraph.Script

/-- What is wrong with a description's result, where its parts say so themselves. -/
inductive Fault where
  /-- A field is missing from the table at a place. -/
  | missingField (place field : String)
  /-- Something that is neither a text nor a marker. -/
  | notText (place : String) (kind : Kind)
  | notArray (place : String) (kind : Kind)
  /-- Something that is no text, where markers are not allowed. -/
  | notPlainText (place : String) (kind : Kind)
  | notCommands (place : String)
  | unknownType (place type : String)
  | notTable
  | rulesNotArray
  | targetsNotArray
  /-- Something that a marker cannot be concatenated with. -/
  | notConcatenable (kind : Kind)
  | notCanonical (path : String) (cause : FileError)
  | notReadable (path : String) (cause : FileError)
  deriving DecidableEq, Repr, Inhabited

/-- The text that is shown for a fault. -/
def Fault.message : Fault → String
  | .missingField place field => place ++ ": missing field '" ++ field ++ "'"
  | .notText place kind => place ++ ": expected a string or keyword, got " ++ kind.name
  | .notArray place kind => place ++ ": expected an array, got " ++ kind.name
  | .notPlainText place kind => place ++ ": expected a plain string, got " ++ kind.name
  | .notCommands place => place ++ ": 'commands' must be an array of argument arrays"
  | .unknownType place type => place ++ ": unknown target type '" ++ type ++ "'"
  | .notTable => "description must return a table"
  | .rulesNotArray => "'rules' must be an array"
  | .targetsNotArray => "description must have a 'targets' array"
  | .notConcatenable kind => "cannot concatenate a " ++ kind.name ++ " with a keyword"
  | .notCanonical path cause => "cannot canonicalize '" ++ path ++ "': " ++ cause.message
  | .notReadable path cause => "cannot read '" ++ path ++ "': " ++ cause.message

/-- What a value was wanted as. -/
inductive Wanted where
  | table
  /-- A text, or a number by its text. -/
  | text
  /-- The characters of a text. -/
  | characters
  | bindings
  deriving DecidableEq, Repr, Inhabited

/-- The name of what was wanted in messages. -/
def Wanted.name : Wanted → String
  | .table => "table"
  | .text => "String"
  | .characters => "&str"
  | .bindings => "BTreeMap<String, String>"

/-- Why a value could not be taken as what was wanted. -/
inductive Reason where
  | none
  | notTextOrNumber
  | notTable
  /-- The bytes are no text; the message says where. -/
  | invalidText (detail : String)
  deriving DecidableEq, Repr, Inhabited

/-- The text of a reason, in parentheses. -/
def Reason.message : Reason → String
  | .none => ""
  | .notTextOrNumber => " (expected string or number)"
  | .notTable => " (expected table)"
  | .invalidText detail => " (" ++ detail ++ ")"

/-- Why a description cannot be used. -/
inductive Error where
  | fault (f : Fault)
  /-- A fault that arose during a concatenation. -/
  | concatFault (f : Fault)
  | conversion (source : Kind) (wanted : Wanted) (reason : Reason)
  /-- The text is no description. -/
  | badForm
  /-- The description does something that its values do not allow. -/
  | badOperation
  deriving DecidableEq, Repr, Inhabited

/-- The kinds of a failed conversion. -/
def conversionMessage (source : Kind) (wanted : Wanted) : String :=
  "error converting Lua " ++ source.name ++ " to " ++ wanted.name

/-- The text that is shown for an error; errors of form and operation have none of their own. -/
def Error.message : Error → String
  | .fault f => f.message
  | .concatFault f => f.message
  | .conversion source wanted reason => conversionMessage source wanted ++ reason.message
  | .badForm => "syntax error"
  | .badOperation => "runtime error"

end BuildGraph.Script
