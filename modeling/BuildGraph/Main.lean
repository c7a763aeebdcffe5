import BuildGraph.CommandLine.Sources
import BuildGraph.Files.Arrange

/-!
# The program

Reads the files that a run asks for, carries the run out on them, and brings what it made into the
file system.  Programs are not started from here.
-/

open BuildGraph BuildGraph.CommandLine

/-- The host of this process, before any file was read. -/
def currentHost : IO Host := do
  let cwd := toString (← IO.currentDir)
  let executable := toString (← IO.appPath)
  let names := ["PATH", "LUA_PATH_5_4", "LUA_PATH"] ++ Toolset.variableNames ++ colorVariables
  let values ← names.mapM fun name => do
    pure (name, ← IO.getEnv name)
  pure {
    files := Files.arrange { workdir := Path.normalNames cwd } (.directory cwd)
    environment := fun name => (values.find? (·.1 == name)).bind (·.2)
    executable
    terminal := ← (← IO.getStderr).isTty }

/-- The host with the files at some paths, as far as they can be read. -/
def withFiles (h : Host) : List String → IO Host
  | [] => pure h
  | path :: rest => do
    let content ← (some <$> IO.FS.readBinFile path) <|> pure none
    match content with
    | none => withFiles h rest
    | some content =>
      withFiles { h with files := h.files.arrange (.file path content false) } rest

/-- The host with every file that a run asks for; a file can name others, `depth` times. -/
def gathered (r : Request) (depth : Nat) (h : Host) : IO Host := do
  match depth with
  | 0 => pure h
  | depth + 1 =>
    let found ← withFiles h (h.missing r)
    if found.files.entries.length = h.files.entries.length then pure h
    else gathered r depth found

/-- Brings an entry into the file system. -/
def bring (entry : Location × Entry) : IO Unit := do
  match entry.2 with
  | .file content _ => IO.FS.writeBinFile entry.1.path content
  | .directory => IO.FS.createDirAll entry.1.path
  | _ => pure ()

/-- How deeply files may name one another. -/
def maxDepth : Nat := 64

def main (args : List String) : IO UInt32 := do
  let start ← currentHost
  let host ← match parse args with
    | .ok r => gathered r maxDepth start
    | .error _ => pure start
  let outcome := host.run args
  let made := outcome.files.entries.filter (· ∉ host.files.entries)
  for entry in made.reverse do bring entry
  IO.print outcome.output
  IO.eprint (outcome.notesText host.usesColor)
  pure (UInt32.ofNat outcome.code)
