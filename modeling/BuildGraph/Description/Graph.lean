import BuildGraph.Description
import BuildGraph.Graph.Wiring
import BuildGraph.Target.Edges

/-!
# Graphs of descriptions

The outline of a description holds its own rules, the built-in rules of the kinds of targets in
use, and the edges of its targets.  Its graph is the outline with the edge that makes the build
file again, which is put in front where the description has no rule for that, and wired.
-/

namespace BuildGraph

namespace Description

/-- Registers the rules of a description, then the built-in rule of every kind in use. -/
def registerRules (d : Description) : Build Unit := do
  let _ ← Build.each RuleTemplate.register d.rules
  let _ ← Build.each (fun t : Target => t.kind.registerBuiltin) d.targets
  pure ()

/-- The rules and edges that the targets of a description have by themselves. -/
def outline (d : Description) : Build Graph := do
  d.registerRules
  let edges ← Build.each Target.edges d.targets
  pure { rules := (← get).rules.rules, edges := edges.flatten }

/-- The outline with the built-in edge in front that makes the build file, unless a rule of its
name is there. -/
def withRegeneration (outline : Graph) : Build Graph := do
  if (← get).knows Rule.regenName then pure outline
  else
    Target.Kind.regen.registerBuiltin
    let edge ← Regeneration.edge {}
    pure { rules := (← get).rules.rules, edges := edge :: outline.edges }

/-- The graph of a description, which makes its own build file again. -/
def graph (d : Description) : Build Graph := do
  let outline ← d.outline
  let complete ← withRegeneration outline
  let graph : Graph := { complete with edges := Graph.wire complete.edges }
  modify (·.addWarnings (graph.repeatedOutputs.map .repeatedOutput))
  pure graph

end Description

/-- Writes the build file of a graph, making the directory it lies in. -/
def Graph.save (g : Graph) (fs : Files) (path : String) : Except FileError Unit × Files :=
  match fs.createDirectories (Path.directoryOf path) with
  | (.error e, fs) => (.error e, fs)
  | (.ok _, fs) =>
    match fs.replace path (Ninja.buildFile g) with
    | .error e => (.error e, fs)
    | .ok fs => (.ok (), fs)

end BuildGraph
