import BuildGraph.CommandLine.Color
import BuildGraph.Deploy.Transport
import BuildGraph.Description.Load

/-!
# Log

What a run tells of its way, where it is asked to.  An event is told in one line: how much it
matters, the part of the program that tells it, what happened, and the values it happened with.

The events of a generation are found by going over its steps once more: the rules that were added
to the registry, the configs that deployments began with or found, and the problems of the report.
-/

namespace BuildGraph.CommandLine

/-- How much an event matters. -/
inductive Level where
  | debug
  | info
  | warning
  | error
  deriving DecidableEq, Repr, Inhabited

/-- The name of a level in a column of five characters. -/
def Level.label : Level → String
  | .debug => "DEBUG"
  | .info => " INFO"
  | .warning => " WARN"
  | .error => "ERROR"

def Level.color : Level → Color
  | .debug => .blue
  | .info => .green
  | .warning => .yellow
  | .error => .red

/-- A line of the log. -/
structure LogLine where
  level : Level
  /-- The part of the program that tells it. -/
  source : String
  message : String
  /-- Names and values, in order. -/
  fields : List (String × String) := []
  deriving DecidableEq, Repr, Inhabited

/-- Something that happens in a run. -/
inductive Event where
  | toolsChosen (tools : Toolset)
  | descriptionLoaded (path : String) (d : Description)
  | keywordsSet (values : KeywordValues)
  | ruleAdded (name : String)
  | configWritten (path dst : String)
  | configCreated (path dst : String)
  | configRead (path dst : String)
  | configUsed (path : String)
  | configUnusable (cause : Deploy.Config.Error)
  | outlineMade (g : Graph)
  | regenerationAdded (outputs : List String)
  | errorReported (p : Problem)
  | warningReported (p : Problem)
  | reported (r : Report)
  | graphMade (g : Graph) (r : Report)
  | buildFileSaved (path : String)
  /-- The build file that was asked for is there. -/
  | buildFileWritten (path : String)
  /-- The build file that was missing is there. -/
  | buildFileMade (path : String)
  | builderCalled (command : String) (targets : List String)
  /-- A directory and its files were looked at before they are deployed. -/
  | deploymentChecked (root : Location) (files : Nat) (r : Deploy.Request)
      (vs : List Deploy.Violation)
  | deploymentBegun (r : Deploy.Request)
  | copierCalled (command : String) (args : List String)

/-! ## Values -/

/-- A character of a quoted text. -/
def quotedChar (c : Char) : String :=
  if c = '"' ∨ c = '\\' then String.ofList ['\\', c]
  else if c = '\n' then "\\n"
  else if c = '\r' then "\\r"
  else if c = '\t' then "\\t"
  else if c = '\x00' then "\\0"
  else if c < ' ' ∨ c = '\x7f' then
    "\\u\x7b" ++ String.ofList (Nat.toDigits 16 c.toNat) ++ "\x7d"
  else String.ofList [c]

/-- A text in quotes. -/
def quoted (s : String) : String := "\"" ++ Text.concat (s.toList.map quotedChar) ++ "\""

def quotedList (ss : List String) : String := "[" ++ Text.join ", " (ss.map quoted) ++ "]"

/-- Names with quoted values. -/
def quotedMembers (ms : List (String × String)) : String :=
  Text.join ", " (ms.map fun m => m.1 ++ ": " ++ quoted m.2)

/-- A name whose words are joined by their capitals and no longer by underscores. -/
def camelCase : (capital : Bool) → List Char → List Char
  | _, [] => []
  | _, '_' :: cs => camelCase true cs
  | capital, c :: cs => (if capital then c else c.toLower) :: camelCase false cs

/-- The keywords that have a value, in their order. -/
def keywordMembers (values : KeywordValues) : List (String × String) :=
  Keyword.all.filterMap fun k =>
    (values k).map (String.ofList (camelCase true k.name.toList), ·)

def toolMembers (t : Toolset) : List (String × String) :=
  [("bash", t.bash), ("clang", t.clang), ("copy", t.copy), ("magick", t.magick),
   ("rsvg_convert", t.rsvgConvert), ("touch", t.touch), ("ninja", t.ninja), ("rsync", t.rsync)]

/-- What is told of a config that cannot be used. -/
def configCause : Deploy.Config.Error → String
  | .read path cause => "failed to read " ++ path ++ ": " ++ cause.message
  | .parse path => "failed to parse " ++ path
  | .write path cause => "failed to write " ++ path ++ ": " ++ cause.message
  | e => e.message

/-! ## Lines -/

/-- The line in which an event is told. -/
def Event.line : Event → LogLine
  | .toolsChosen tools => ⟨.debug, "haga_lib::tools", "resolved tool commands",
      [("tools", "Tools \x7b " ++ quotedMembers (toolMembers tools) ++ " \x7d")]⟩
  | .descriptionLoaded path d => ⟨.debug, "haga_lib::lua::entrypoint", "loaded build description",
      [("path", path), ("rules", toString d.rules.length), ("targets", toString d.targets.length)]⟩
  | .keywordsSet values => ⟨.debug, "haga_lib::context", "created context",
      [("keywords", "\x7b" ++ quotedMembers (keywordMembers values) ++ "\x7d")]⟩
  | .ruleAdded name => ⟨.debug, "haga_lib::context", "registered rule", [("rule", name)]⟩
  | .configWritten path dst => ⟨.debug, "haga_lib::deploy::config", "wrote deployment config",
      [("path", path), ("dst_dir", dst)]⟩
  | .configCreated path dst => ⟨.info, "haga_lib::deploy::bootstrap", "created deployment config",
      [("path", path), ("dst_dir", dst)]⟩
  | .configRead path dst => ⟨.debug, "haga_lib::deploy::config", "read deployment config",
      [("path", path), ("dst_dir", quoted dst)]⟩
  | .configUsed path => ⟨.debug, "haga_lib::deploy::bootstrap", "using existing deployment config",
      [("path", path)]⟩
  | .configUnusable cause => ⟨.debug, "haga_lib::sweet::expand", "deployment config unusable",
      [("error", configCause cause)]⟩
  | .outlineMade g => ⟨.info, "haga_lib::sweet::expand", "expanded build description",
      [("rules", toString g.rules.length), ("targets", toString g.edges.length)]⟩
  | .regenerationAdded outputs => ⟨.debug, "haga_lib::generate", "added default regen target",
      [("outputs", quotedList outputs)]⟩
  | .errorReported p => ⟨.error, "haga_lib::context", p.message, []⟩
  | .warningReported p => ⟨.warning, "haga_lib::context", p.message, []⟩
  | .reported r => ⟨.debug, "haga_lib::context", "flushed diagnostics",
      [("errors", toString r.errors.length), ("warnings", toString r.warnings.length)]⟩
  | .graphMade g r => ⟨.info, "haga_lib::generate", "generated build graph",
      [("rules", toString g.rules.length), ("targets", toString g.edges.length),
       ("errors", toString r.errors.length), ("warnings", toString r.warnings.length)]⟩
  | .buildFileSaved path => ⟨.debug, "haga_lib::generate", "wrote build file", [("path", path)]⟩
  | .buildFileWritten path => ⟨.info, "haga::cmd::genin", "wrote build file", [("path", path)]⟩
  | .buildFileMade path => ⟨.info, "haga::cmd::build", "generated build file", [("path", path)]⟩
  | .builderCalled command targets => ⟨.debug, "haga::cmd::build", "running ninja",
      [("ninja", command), ("targets", quotedList targets)]⟩
  | .deploymentChecked root files r vs => ⟨.debug, "haga_lib::deploy::validate",
      "validated sync options",
      [("src_dir", root.path), ("files", toString files), ("inputs", toString r.inputs.length),
       ("errors", toString vs.length)]⟩
  | .deploymentBegun r => ⟨.info, "haga_lib::deploy::sync", "syncing",
      [("src", r.srcDir), ("dst", r.dstDir), ("files", toString r.inputs.length)]⟩
  | .copierCalled command args => ⟨.debug, "haga_lib::deploy::sync", "spawning rsync",
      [("command", command), ("args", quotedList args)]⟩

/-- A text in a style, after which the usual one comes back. -/
def styled (colored : Bool) (number s : String) : String :=
  if colored then "\x1b[" ++ number ++ "m" ++ s ++ "\x1b[0m" else s

/-- The text of a line: the source is dimmed and names are slanted. -/
def LogLine.render (colored : Bool) (l : LogLine) : String :=
  styled colored l.level.color.number l.level.label ++ " "
    ++ styled colored "2" l.source ++ styled colored "2" ":" ++ " " ++ l.message
    ++ Text.concat (l.fields.map fun f =>
        " " ++ styled colored "3" f.1 ++ styled colored "2" "=" ++ f.2)
    ++ "\n"

/-- Whether the lines of a log are styled, be it on a terminal or not. -/
def stylesLog (env : String → Option String) : Bool := (env "NO_COLOR").all (· = "")

/-! ## Events of a generation -/

/-- What happens with the config of a deployment. -/
def configEvents (t : Deployment) (s : Session) : List Event :=
  let (path, s) := (Template.pathIn (.ofKeyword .currentInputDir) t.config).run s
  match ((Deploy.Destination.obtain path t.dstDir.compose).run s).1 with
  | .ok (.written dst) => [.configWritten path dst, .configCreated path dst]
  | .ok (.found dst) => [.configRead path dst, .configUsed path]
  | .error e => [.configUnusable e]

/-- What happens with the configs of targets, each in the session that the targets before it
leave. -/
def targetEvents : List Target → Session → List Event
  | [], _ => []
  | t :: ts, s =>
    (match t with
      | .rsync u => configEvents u s
      | _ => [])
    ++ targetEvents ts (t.edges.run s).2

/-- What happens between two sessions of which the second has more rules. -/
def ruleEvents (before after : Session) : List Event :=
  (after.rules.rules.drop before.rules.rules.length).map (.ruleAdded ·.name)

/-- What happens while the graph of a description is made. -/
def graphEvents (d : Description) (s : Session) : List Event :=
  let (_, registered) := d.registerRules.run s
  let (outline, outlined) := d.outline.run s
  let (complete, completed) := (Description.withRegeneration outline).run outlined
  let (graph, made) := d.graph.run s
  let (report, _) := made.takeReport
  ruleEvents s registered ++ targetEvents d.targets registered ++ [.outlineMade outline]
    ++ (if outlined.knows Rule.regenName then []
        else ruleEvents outlined completed
          ++ (complete.edges.head?.map fun e => .regenerationAdded e.outputs).toList)
    ++ report.errors.map .errorReported ++ report.warnings.map .warningReported
    ++ [.reported report, .graphMade graph report]

/-- What happens in a generation from a description file. -/
def generationEvents (fs : Files) (modulePath cwd file command : String) (tools : Toolset) :
    List Event :=
  match Description.load fs modulePath (Path.append cwd file) with
  | .error _ => []
  | .ok d =>
    let s := Session.ofInvocation cwd file command tools fs
    .descriptionLoaded (Path.append cwd file) d :: .keywordsSet s.keywords :: graphEvents d s

/-! ## Events of a deployment -/

/-- What is found out before a deployment; nothing is where there is no directory. -/
def checkEvents (fs : Files) (r : Deploy.Request) : List Event :=
  match fs.stat r.srcDir, fs.locate r.srcDir with
  | .ok .directory, .ok root =>
    [.deploymentChecked root (Deploy.present fs root).length r (r.violations fs)]
  | _, _ => []

/-- What happens when a directory is deployed. -/
def deploymentEvents (fs : Files) (command : String) (r : Deploy.Request) : List Event :=
  checkEvents fs r
    ++ if r.violations fs = [] then
        [.deploymentBegun r, .copierCalled command (Deploy.copyArguments r.srcDir r.dstDir)]
      else []

end BuildGraph.CommandLine
