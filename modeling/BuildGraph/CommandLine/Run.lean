import BuildGraph.CommandLine.Arguments
import BuildGraph.CommandLine.Log
import BuildGraph.CommandLine.Outcome
import BuildGraph.Graph.Document
import BuildGraph.Json.Printer
import BuildGraph.Programs

/-!
# Runs

Carrying out what a command line asks for.  A generation with errors writes no build file, and
nothing is built or deployed after it; what a run prints is decided here and printed elsewhere.
What is logged stands among the notes, where it belongs in time.
-/

namespace BuildGraph.CommandLine

/-- What a run finds around it. -/
structure Host where
  files : Files
  /-- The values of environment variables. -/
  environment : String → Option String
  /-- The path of this program. -/
  executable : String
  /-- Whether notes go to a terminal. -/
  terminal : Bool := false
  /-- Whether events are logged. -/
  verbose : Bool := false

/-- What starts a program: in which files and directory, where to look for it, and its arguments. -/
abbrev Starter : Type :=
  Files → Location → String → String → List String → Except FileError Ran

/-- The text of an explanation. -/
def usageText : String :=
  "Usage: haga [OPTIONS] <COMMAND>\n\nCommands:\n"
    ++ "  genin [FILE] [-o DIR] [--format text|json]  Print or write a build file\n"
    ++ "  build [FILE] [TARGETS]...                   Make the build file if missing, then build\n"
    ++ "  deploy [FILE]                               Build the deployment\n"
    ++ "  rsync <SRC> <DST> [INPUTS]...               Copy a directory that holds exactly INPUTS\n"
    ++ "  help [COMMAND]                              Print this text\n"

/-- The text of the version. -/
def versionText : String := "haga 0.3.0\n"

/-- The alias that a deployment builds. -/
def deployAlias : String := "deploy"

namespace Host

/-- The working directory of a run. -/
def cwd (h : Host) : String := h.files.workdir.path

/-- Where commands are looked for. -/
def searchPath (h : Host) : String := (h.environment "PATH").getD Programs.defaultSearchPath

/-- Where the modules of descriptions may lie. -/
def modulePath (h : Host) : String :=
  Script.Library.searchPath ((h.environment "LUA_PATH_5_4").or (h.environment "LUA_PATH"))

/-- Whether notes are coloured. -/
def usesColor (h : Host) : Bool := showsColor h.environment h.terminal

/-- The commands of the tools. -/
def tools (h : Host) : Toolset := .ofEnvironment h.environment

/-- The notes on events, if they are logged. -/
@[macro_inline]
def log (h : Host) (events : List Event) : List Note :=
  if h.verbose then events.map fun e => .text (e.line.render (stylesLog h.environment)) else []

/-- A run that failed, after some notes. -/
def fail (fs : Files) (notes : List Note) (f : Failure) : Outcome :=
  { code := 1, notes := notes ++ [.failure f], files := fs }

/-- The causes of an error of a description. -/
def loadCauses (e : LoadError) : List String :=
  match e with
  | .notFound _ => [e.message]
  | .script _ cause => [e.message, cause.message]

/-! ## Generation -/

/-- The notes of a run that begins. -/
def openingNotes (h : Host) : List Note := h.log [.toolsChosen h.tools]

/-- The notes of a generation with its report. -/
def generationNotes (h : Host) (fs : Files) (file : String) (r : Report) : List Note :=
  h.openingNotes
    ++ h.log (generationEvents fs h.modulePath h.cwd file h.executable h.tools)
    ++ reportNotes r

/-- The generation of a description file, or the outcome of a run that cannot go on. -/
def generation (h : Host) (fs : Files) (file : String) : Except Outcome Generated :=
  match Generated.ofFile fs h.modulePath h.cwd file h.executable h.tools with
  | .error e =>
    .error (fail fs h.openingNotes ⟨"Failed to generate from " ++ file, loadCauses e⟩)
  | .ok g =>
    if g.report.succeeded then .ok g
    else .error (fail g.files (h.generationNotes fs file g.report)
      ⟨"generation failed: " ++ summary g.report, []⟩)

/-- The files with a build file written, or the outcome of a run that cannot go on, after some
notes. -/
def writeGraph (g : Generated) (notes : List Note) (path : String) : Except Outcome Files :=
  match g.graph.save g.files path with
  | (.ok _, fs) => .ok fs
  | (.error e, fs) => .error (fail fs notes
      ⟨"failed to write " ++ path ++ ": " ++ e.message, [e.message]⟩)

/-- Prints the graph of a description, or writes its build file into a directory. -/
def generate (h : Host) (file : String) (outDir : Option String) (format : Format) :
    Except Outcome Outcome := do
  let g ← h.generation h.files file
  let notes := h.generationNotes h.files file g.report
  match format, outDir with
  | .json, _ =>
    pure { output := g.graph.toDocument.print ++ "\n", notes, files := g.files }
  | .text, none => pure { output := Ninja.buildFile g.graph, notes, files := g.files }
  | .text, some dir =>
    let path := Path.append dir Ninja.buildFileName
    let fs ← writeGraph g notes path
    let written := h.log [.buildFileSaved path, .buildFileWritten path]
    pure { notes := notes ++ written ++ [.info ("Wrote " ++ path)], files := fs }

/-! ## Building -/

/-- The files with a directory and what is above it, or the outcome of a run that cannot go on. -/
def makeDirectory (h : Host) (path : String) : Except Outcome Files :=
  match h.files.createDirectories path with
  | (.ok _, fs) => .ok fs
  | (.error e, fs) =>
    .error (fail fs h.openingNotes ⟨"Failed to create " ++ path, [e.message]⟩)

/-- The build file in the output directory. -/
def buildFile (h : Host) : String :=
  Path.append (Path.append h.cwd Session.outDirectory) Ninja.buildFileName

/-- The files with a build file, which is made if it was missing, and the notes so far. -/
def ensureBuildFile (h : Host) (fs : Files) (file : String) :
    Except Outcome (Files × List Note) :=
  if fs.pathExists h.buildFile then .ok (fs, h.openingNotes)
  else do
    let g ← h.generation fs file
    let notes := h.generationNotes fs file g.report
    let fs ← writeGraph g notes h.buildFile
    pure (fs, notes ++ h.log [.buildFileSaved h.buildFile, .buildFileMade h.buildFile])

/-- Makes the build file if it is missing, then has targets built in the output directory. -/
def build (start : Starter) (h : Host) (file : String) (targets : List String) :
    Except Outcome Outcome := do
  let outDir := Path.append h.cwd Session.outDirectory
  let fs ← h.makeDirectory outDir
  let (fs, notes) ← h.ensureBuildFile fs file
  let ninja := h.tools.ninja
  let notes := notes ++ h.log [.builderCalled ninja targets]
  let dir := (fs.resolve outDir).toOption.getD fs.workdir
  match start fs dir h.searchPath ninja targets with
  | .error e => throw (fail fs notes ⟨"Failed to run " ++ ninja, [e.message]⟩)
  | .ok ran =>
    let notes := notes ++ [.text ran.written.notes]
    let output := ran.written.output
    if ran.code = 0 then
      pure { output, notes := notes ++ [.success "Build complete"], files := fs }
    else
      let outcome := fail fs notes
        ⟨ninja ++ " exited with exit status: " ++ toString ran.code, []⟩
      throw { outcome with output }

/-! ## Deployment -/

/-- A transport that runs a program and keeps what it writes. -/
def programTransport (fs : Files) (searchPath command : String) :
    Deploy.Transport (StateM Programs.Shell.Written) where
  copyOver src dst := do
    match Programs.run fs fs.workdir searchPath command (Deploy.copyArguments src dst) with
    | .error e => pure (.error (.notStarted command e))
    | .ok ran =>
      modify (·.append ran.written)
      pure (if ran.code = 0 then .ok () else .error (.failed command ran.code))

/-- The outcome of a deployment after some notes, in which something was written. -/
def syncOutcome (h : Host) (notes : List Note) (r : Deploy.Request)
    (written : Programs.Shell.Written) : Except Deploy.Error Unit → Outcome
  | .ok _ => {
      output := written.output
      notes := notes
        ++ [.text written.notes, .success ("Synced " ++ r.srcDir ++ " to " ++ r.dstDir)]
      files := h.files }
  | .error (.refused vs) =>
    fail h.files (notes ++ vs.map fun v => .error v.display)
      ⟨"refusing to sync " ++ r.srcDir ++ ": " ++ toString vs.length ++ " error(s)", []⟩
  | .error (.notStarted command cause) =>
    let e : Deploy.Error := .notStarted command cause
    fail h.files notes ⟨"Sync failed", [e.message, cause.message]⟩
  | .error e =>
    let outcome := fail h.files (notes ++ [.text written.notes]) ⟨"Sync failed", [e.message]⟩
    { outcome with output := written.output }

/-- Copies a directory that holds exactly the named files. -/
def rsync (h : Host) (r : Deploy.Request) : Outcome :=
  let transport := programTransport h.files h.searchPath h.tools.rsync
  let (result, written) := (r.carryOut transport h.files).run {}
  h.syncOutcome (h.openingNotes ++ h.log (deploymentEvents h.files h.tools.rsync r)) r written
    result

/-! ## Command lines -/

/-- The outcome, however the run ended. -/
def settle : Except Outcome Outcome → Outcome
  | .ok o => o
  | .error o => o

/-- Carries out a request; the builder is started in a given way. -/
def carryOutWith (start : Starter) (h : Host) : Request → Outcome
  | .generate file outDir format => settle (h.generate file outDir format)
  | .build file targets => settle (h.build start file targets)
  | .deploy file => settle (h.build start file [deployAlias])
  | .rsync src dst inputs => h.rsync { inputs, srcDir := src, dstDir := dst }

/-- The run of a command line; the builder is started in a given way. -/
def runWith (start : Starter) (h : Host) (args : List String) : Outcome :=
  match readLine args with
  | .ok line => { h with verbose := line.verbose }.carryOutWith start line.request
  | .error .help => { output := usageText, files := h.files }
  | .error .version => { output := versionText, files := h.files }
  | .error .usage => { code := 2, notes := [.text usageText], files := h.files }

/-- The run of a command line. -/
def run (h : Host) (args : List String) : Outcome := h.runWith Programs.run args

end Host

end BuildGraph.CommandLine
