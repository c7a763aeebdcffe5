import BuildGraph.Description.Decode
import BuildGraph.Description.Graph
import BuildGraph.Script.Evaluate

/-!
# Descriptions from files

A description file is evaluated and its result read.  Generating from a file is one pass over a
fresh session, whose problems are reported with the graph.
-/

namespace BuildGraph

/-- Why a description file cannot be used. -/
inductive LoadError where
  | notFound (path : String)
  | script (path : String) (cause : Script.Error)
  deriving DecidableEq, Repr, Inhabited

/-- The text that is shown for an error. -/
def LoadError.message : LoadError → String
  | .notFound path => "build description not found: " ++ path
  | .script path cause => "failed to evaluate " ++ path ++ ": " ++ cause.message

namespace Description

/-- The result of a description file; its modules lie at the places of `modulePath`. -/
def evaluateFile (fs : Files) (modulePath path : String) : Except Script.Error Script.Value :=
  match fs.canonicalize path with
  | .error e => .error (.fault (.notCanonical path e))
  | .ok canonical =>
    match fs.readText canonical with
    | .error e => .error (.fault (.notReadable canonical e))
    | .ok text => Script.evaluate fs modulePath ((Path.parent? canonical).getD "") text

/-- The description that a file holds. -/
def load (fs : Files) (modulePath path : String) : Except LoadError Description :=
  if fs.pathExists path then
    ((evaluateFile fs modulePath path).bind ofValue).mapError (.script path)
  else .error (.notFound path)

end Description

/-- The outcome of a generation, and the files it leaves. -/
structure Generated where
  graph : Graph
  report : Report
  files : Files
  deriving Inhabited

/-- One pass from a description file to a graph.  Problems are part of the outcome; only a
description that cannot be used is an error. -/
def Generated.ofFile (fs : Files) (modulePath cwd file command : String) (tools : Toolset) :
    Except LoadError Generated :=
  match Description.load fs modulePath (Path.append cwd file) with
  | .error e => .error e
  | .ok d =>
    let (graph, session) := d.graph.run (Session.ofInvocation cwd file command tools fs)
    let (report, session) := session.takeReport
    .ok { graph, report, files := session.files }

end BuildGraph
