import BuildGraph.Files.Write
import BuildGraph.Json.Printer
import BuildGraph.Json5.Document
import BuildGraph.Problem

/-!
# Deployment configs

The destination of a deployment is kept in a file of its own, an object with the one member
`dstDir`.  People edit it, so it is read as JSON5; it is written as JSON, and never over anything.
-/

namespace BuildGraph.Deploy.Config

/-- What is wrong with a config that can be parsed. -/
inductive Fault where
  | notObject
  | wrongFields
  | notString
  deriving DecidableEq, Repr, Inhabited

/-- The text that is shown for a fault. -/
def Fault.message : Fault → String
  | .notObject => "root must be an object"
  | .wrongFields => "expected exactly one field 'dstDir'"
  | .notString => "'dstDir' must be a string"

/-- Why a config cannot be used. -/
inductive Error where
  | read (path : String) (cause : FileError)
  | parse (path : String)
  | invalidSchema (path : String) (fault : Fault)
  | write (path : String) (cause : FileError)
  deriving DecidableEq, Repr, Inhabited

namespace Error

/-- The stable name of an error. -/
def code : Error → DeployCode
  | .read _ _ => .configReadError
  | .parse _ => .configParseError
  | .invalidSchema _ _ => .configInvalidSchema
  | .write _ _ => .configWriteError

/-- What was done when the error arose. -/
def action : Error → ConfigAction
  | .write _ _ => .write
  | _ => .read

/-- The config that the error is about. -/
def path : Error → String
  | .read p _ => p
  | .parse p => p
  | .invalidSchema p _ => p
  | .write p _ => p

/-- The text that is shown for an error. -/
def message : Error → String
  | .invalidSchema p fault => "invalid deployment config " ++ p ++ ": " ++ fault.message
  | e => e.action.verb ++ " " ++ e.path

/-- The problem that an expansion records for an error. -/
def problem (e : Error) : Problem := .unusableConfig e.action e.path e.code

end Error

/-- The only field of a config. -/
def field : String := "dstDir"

/-- The destination in a document.  Members of one name count as one, and the last of them holds. -/
def destinationOf (doc : Json) : Except Fault String :=
  match doc with
  | .object members =>
    if members.all (·.1 == field) then
      match members.getLast? with
      | none => .error .wrongFields
      | some (_, .string dst) => .ok dst
      | some _ => .error .notString
    else .error .wrongFields
  | _ => .error .notObject

/-- The destination in the text of a config. -/
def parse (path text : String) : Except Error String :=
  match Json5.parse? text with
  | none => .error (.parse path)
  | some doc => (destinationOf doc).mapError (.invalidSchema path)

/-- The destination in a config. -/
def read (fs : Files) (path : String) : Except Error String :=
  match fs.readText path with
  | .error e => .error (.read path e)
  | .ok text => parse path text

/-- The text of a config. -/
def text (dst : String) : String := (Json.object [(field, .string dst)]).print

/-- Creates a config; what is at its path already is never touched. -/
def create (fs : Files) (path dst : String) : Except Error Files :=
  (fs.writeNew path (text dst)).mapError (.write path)

example : text "a\nb" = "\x7b\n  \"dstDir\": \"a\\nb\"\n\x7d" := by decide +kernel

end BuildGraph.Deploy.Config
