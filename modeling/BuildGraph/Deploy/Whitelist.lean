import BuildGraph.Files.Resolve
import BuildGraph.Problem

/-!
# Whitelists

A deployment copies a whole directory and deletes everything else at the destination, so the
directory must hold exactly the declared files.  A declared file may not lie outside the directory
and must be, links followed, a regular file; an entry that is no directory and was not declared is
unexpected, whatever it is.  All violations are listed, the unexpected entries in one.  What lies in
a directory whose absolute path is too long cannot be known, which is a violation of its own.
-/

namespace BuildGraph.Deploy

/-- One deployment as it is asked for. -/
structure Request where
  /-- Every file allowed in `srcDir`, relative to it. -/
  inputs : List String
  srcDir : String
  /-- Handed on as it is; may name another host. -/
  dstDir : String
  deriving DecidableEq, Repr, Inhabited

/-- Why a directory must not be deployed. -/
inductive Violation where
  | srcMissing (src : String)
  | srcNotDirectory (src : String)
  /-- The directory has no usable absolute path. -/
  | srcUnlocated (src : String) (cause : FileError)
  /-- A directory below, by its absolute path, whose entries cannot be listed. -/
  | unlisted (path : String) (cause : FileError)
  | outside (input : String)
  | missing (input : String)
  | directory (input : String)
  | notRegular (input : String)
  /-- Entries that were not declared, relative to the directory. -/
  | unexpected (paths : List String)
  deriving DecidableEq, Repr, Inhabited

namespace Violation

/-- The stable name of a violation. -/
def code : Violation → DeployCode
  | .srcMissing _ => .srcDirNotFound
  | .srcNotDirectory _ => .srcDirNotDirectory
  | .srcUnlocated _ _ => .srcDirNotFound
  | .unlisted _ _ => .unexpectedFile
  | .outside _ => .inputOutsideSrcDir
  | .missing _ => .inputNotFound
  | .directory _ => .inputIsDirectory
  | .notRegular _ => .inputNotFound
  | .unexpected _ => .unexpectedFile

/-- The text that is shown for a violation. -/
def message : Violation → String
  | .srcMissing src => "srcDir does not exist: " ++ src
  | .srcNotDirectory src => "srcDir is not a directory: " ++ src
  | .srcUnlocated src cause => "cannot resolve srcDir " ++ src ++ ": " ++ cause.message
  | .unlisted path cause =>
    "cannot scan srcDir: IO error for operation on " ++ path ++ ": " ++ cause.message
  | .outside input => "input is outside srcDir: " ++ input
  | .missing input => "input does not exist: " ++ input
  | .directory input => "input is a directory: " ++ input
  | .notRegular input => "input is not a regular file: " ++ input
  | .unexpected paths =>
    "Unexpected files found in srcDir that would be copied by rsync:"
      ++ Text.concat (paths.map ("\n  - " ++ ·))

/-- The text with the stable name before it. -/
def display (v : Violation) : String := "[" ++ v.code.name ++ "] " ++ v.message

end Violation

/-- The location from `root` of a declared file, or what is wrong with it. -/
def locateInput (fs : Files) (root : Location) (input : String) : Except Violation Location :=
  let names := Path.normalNames (Path.append root.path input)
  match Path.dropPrefix? root names with
  | none => .error (.outside input)
  | some relative =>
    match fs.stat (Location.path names) with
    | .error _ => .error (.missing input)
    | .ok .directory => .error (.directory input)
    | .ok (.file _ _) => .ok relative
    | .ok _ => .error (.notRegular input)

/-- What is wrong with the declared files, in their order. -/
def inputViolations (fs : Files) (root : Location) (inputs : List String) : List Violation :=
  inputs.filterMap fun input =>
    match locateInput fs root input with
    | .error v => some v
    | .ok _ => none

/-- The locations of the declared files with which nothing is wrong. -/
def accepted (fs : Files) (root : Location) (inputs : List String) : List Location :=
  inputs.filterMap fun input => (locateInput fs root input).toOption

/-- Whether the entries of the directory at a location can be listed. -/
def canList (l : Location) : Bool := l.path.utf8ByteSize < Files.maxPath

/-- The locations of all entries below a directory that are no directories, in their order as
lists of names.  Links are not followed. -/
def present (fs : Files) (root : Location) : List Location :=
  (((fs.listing root).filter fun e => !e.2.isDirectory && canList (root ++ e.1.dropLast)).map
    (·.1)).mergeSort Text.listLe

/-- The directories below a directory whose entries cannot be listed. -/
def unlisted (fs : Files) (root : Location) : List Violation :=
  (fs.listing root).filterMap fun e =>
    if e.2.isDirectory && canList (root ++ e.1.dropLast) && !canList (root ++ e.1) then
      some (.unlisted (root ++ e.1).path .nameTooLong)
    else none

/-- The present entries that were not declared. -/
def unexpected (fs : Files) (root : Location) (inputs : List String) : List Location :=
  let declared := accepted fs root inputs
  (present fs root).filter (· ∉ declared)

/-- What is wrong with a directory. -/
def rootViolations (fs : Files) (root : Location) (inputs : List String) : List Violation :=
  unlisted fs root ++ inputViolations fs root inputs
    ++ (match unexpected fs root inputs with
        | [] => []
        | ls => [.unexpected (ls.map (Text.join "/"))])

/-- Everything that stands against a deployment. -/
def Request.violations (r : Request) (fs : Files) : List Violation :=
  match fs.stat r.srcDir with
  | .error _ => [.srcMissing r.srcDir]
  | .ok e =>
    if !e.isDirectory then [.srcNotDirectory r.srcDir]
    else match fs.locate r.srcDir with
      | .error cause => [.srcUnlocated r.srcDir cause]
      | .ok root => rootViolations fs root r.inputs

end BuildGraph.Deploy
