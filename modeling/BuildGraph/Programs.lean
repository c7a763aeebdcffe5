import BuildGraph.Files.Resolve
import BuildGraph.Programs.Shell

/-!
# Programs

A program is an executable file.  A command without a slash is looked for in the directories of a
search path, any other names the file itself.  A script names the program that reads it in its
first line; what is no script must be native code, of which only a few utilities are known, by
their names.  Of what a program does only its code and what it writes matter here.
-/

namespace BuildGraph

/-- What is left of a program that was run. -/
structure Ran where
  code : Nat := 0
  written : Programs.Shell.Written := {}
  deriving DecidableEq, Repr, Inhabited

namespace Programs

/-! ## Files -/

/-- The search path where none is set. -/
def defaultSearchPath : String := "/usr/bin:/bin"

/-- Where a command may lie, in order of preference; an empty directory is the working one. -/
def candidates (searchPath command : String) : List String :=
  (Text.cut ':' searchPath.toList).map fun dir =>
    Path.append (if dir = [] then "." else String.ofList dir) command

/-- The name and content of an executable file, all links followed. -/
def executable (fs : Files) (path : String) : Except FileError (String × ByteArray) :=
  match fs.resolve path with
  | .error e => .error e
  | .ok l =>
    match fs.lookup l with
    | some (.file content true) => .ok (l.getLast?.getD "", content)
    | some _ => .error .denied
    | none => .error .notFound

/-- Number of bytes in which the first line of a script is looked for. -/
def maxFirstLine : Nat := 256

/-- The path and the argument in the first line of a script; the argument is all that follows the
path.  A line that ends too late for it to be known that the path is complete names none. -/
def interpreter? (content : ByteArray) : Option (String × List String) :=
  let head := (content.data.toList.take maxFirstLine).map fun b => Char.ofNat b.toNat
  match head with
  | '#' :: '!' :: rest =>
    let isBlank (c : Char) : Bool := c = ' ' || c = '\t'
    let line := rest.takeWhile fun c => c ≠ '\n' ∧ c ≠ '\x00'
    let trimmed := ((line.dropWhile isBlank).reverse.dropWhile isBlank).reverse
    let path := trimmed.takeWhile (!isBlank ·)
    let argument := (trimmed.dropWhile (!isBlank ·)).dropWhile isBlank
    if path = [] ∨ (path.length + 2 = maxFirstLine) then none
    else some (String.ofList path, if argument = [] then [] else [String.ofList argument])
  | _ => none

/-- Whether a file holds native code. -/
def isNative (content : ByteArray) : Bool :=
  content.data.toList.take 4 = [0x7f, 0x45, 0x4c, 0x46]

/-- Content that stands for native code. -/
def nativeMark : ByteArray := ⟨#[0x7f, 0x45, 0x4c, 0x46]⟩

/-! ## Arguments -/

/-- Number of bytes that an argument must stay below. -/
def maxArgument : Nat := 131072

/-- Refuses arguments that no program takes. -/
def checkArguments (args : List String) : Except FileError Unit :=
  if args.any (·.toList.contains '\x00') then .error .nulInArgument
  else if args.any fun a => decide (maxArgument ≤ a.utf8ByteSize) then .error .argumentsTooLong
  else .ok ()

/-! ## Runs -/

/-- The first of some paths that can be started; one that is missing or may not be executed is
passed over. -/
def firstOf (start : String → Except FileError Ran) (failure : FileError) :
    List String → Except FileError Ran
  | [] => .error failure
  | path :: rest =>
    match start path with
    | .ok ran => .ok ran
    | .error .denied => firstOf start .denied rest
    | .error .notFound => firstOf start failure rest
    | .error .notDirectory => firstOf start failure rest
    | .error e => .error e

/-- Whether a name is that of a shell. -/
def isShell (name : String) : Bool := name = "sh" ∨ name = "dash" ∨ name = "bash"

/-- What a shell does with the script that its first argument names; options of one letter before
it are passed over. -/
def runShell (fs : Files) (args : List String) : Ran :=
  match args.dropWhile fun a => a.toList.head? = some '-' ∧ a.length = 2 with
  | [] => {}
  | script :: args =>
    if script.toList.head? = some '-' then { code := Shell.misuseCode }
    else match fs.readText script with
      | .error _ => { code := Shell.notFoundCode }
      | .ok text =>
        let r := Shell.run script args text
        { code := r.1, written := r.2 }

/-- Runs the program at a path.  Scripts may name scripts as their programs `depth` times. -/
def start (fs : Files) (searchPath : String) : (depth : Nat) → List String → String →
    Except FileError Ran
  | 0, _, _ => .error .tooManyLinks
  | depth + 1, args, path =>
    match executable fs path with
    | .error e => .error e
    | .ok (name, content) =>
      match interpreter? content with
      | some (program, argument) =>
        start fs searchPath depth (argument ++ path :: args) program
      | none =>
        if !isNative content then .error .notProgram
        else if isShell name then .ok (runShell fs args)
        else if name = "env" then
          match args with
          | [] => .ok {}
          | command :: args =>
            match firstOf (start fs searchPath depth args) .notFound
                (candidates searchPath command) with
            | .ok ran => .ok ran
            | .error _ => .ok { code := Shell.notFoundCode }
        else if name = "echo" then .ok { written := { output := Text.join " " args ++ "\n" } }
        else if name = "false" then .ok { code := 1 }
        else .ok {}

/-- How often scripts may name scripts as their programs. -/
def maxDepth : Nat := 6

/-- Runs the program that a command names, in the working directory `dir`. -/
def run (fs : Files) (dir : Location) (searchPath command : String) (args : List String) :
    Except FileError Ran :=
  match checkArguments (command :: args) with
  | .error e => .error e
  | .ok _ =>
    let start := start { fs with workdir := dir } searchPath maxDepth args
    if command.toList.contains '/' then start command
    else if command = "" then .error .notFound
    else firstOf start .notFound (candidates searchPath command)

end Programs

end BuildGraph
