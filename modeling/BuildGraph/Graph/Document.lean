import BuildGraph.Graph
import BuildGraph.Json
import BuildGraph.Keyword

/-!
# Graphs as documents

The JSON form of rules, edges and graphs.  A field whose value is the usual one is left out, and
reading puts that value back: no description, `generator` and `restat` false, `all` true, and
empty lists of paths or variables.
-/

namespace BuildGraph

/-! ## Rules -/

namespace Rule

/-- The JSON form of a rule. -/
def toDocument (r : Rule) : Json :=
  .object ([("name", .string r.name), ("commands", .array (r.commands.map .ofTexts))]
    ++ (match r.description with
        | none => []
        | some d => [("description", .string d)])
    ++ Json.memberIf r.generator "generator" (.bool true)
    ++ Json.memberIf r.restat "restat" (.bool true))

/-- The fields of a rule, in order. -/
def fieldNames : List String := ["name", "commands", "description", "generator", "restat"]

/-- The rule that a document describes. -/
def ofDocument? (doc : Json) : Option Rule :=
  match doc.fields? fieldNames with
  | some [name, commands, description, generator, restat] => do
    let name ← Json.required Json.text? name
    let commands ← Json.required (Json.listOf? Json.texts?) commands
    let description ← Json.optional none (Json.nullable Json.text?) description
    let generator ← Json.optional false Json.bool? generator
    let restat ← Json.optional false Json.bool? restat
    pure { name, commands, description, generator, restat }
  | _ => none

end Rule

/-! ## Edges -/

namespace Bindings

/-- The JSON form of variables. -/
def toDocument (b : Bindings) : Json := .object (b.entries.map fun e => (e.1, .string e.2))

/-- The variables that a document describes. -/
def ofDocument? (doc : Json) : Option Bindings := (doc.membersOf? Json.text?).map ofList

end Bindings

namespace Edge

/-- The JSON form of an edge. -/
def toDocument (e : Edge) : Json :=
  .object ([("inputs", .ofTexts e.inputs), ("outputs", .ofTexts e.outputs)]
    ++ Json.memberIf (!e.implicits.isEmpty) "implicits" (.ofTexts e.implicits)
    ++ Json.memberIf (!e.orderOnly.isEmpty) "order_only" (.ofTexts e.orderOnly)
    ++ Json.memberIf (!e.regenImplicits.isEmpty) "regen_implicits" (.ofTexts e.regenImplicits)
    ++ [("rule", .string e.rule)]
    ++ Json.memberIf (!e.vars.isEmpty) "vars" e.vars.toDocument
    ++ Json.memberIf (!e.all) "all" (.bool false))

/-- The fields of an edge, in order. -/
def fieldNames : List String :=
  ["inputs", "outputs", "implicits", "order_only", "regen_implicits", "rule", "vars", "all"]

/-- The edge that a document describes. -/
def ofDocument? (doc : Json) : Option Edge :=
  match doc.fields? fieldNames with
  | some [inputs, outputs, implicits, orderOnly, regenImplicits, rule, vars, all] => do
    let inputs ← Json.required Json.texts? inputs
    let outputs ← Json.required Json.texts? outputs
    let implicits ← Json.optional [] Json.texts? implicits
    let orderOnly ← Json.optional [] Json.texts? orderOnly
    let regenImplicits ← Json.optional [] Json.texts? regenImplicits
    let rule ← Json.required Json.text? rule
    let vars ← Json.optional .empty Bindings.ofDocument? vars
    let all ← Json.optional true Json.bool? all
    pure { inputs, outputs, implicits, orderOnly, regenImplicits, rule, vars, all }
  | _ => none

end Edge

/-! ## Graphs -/

namespace Graph

/-- The JSON form of a graph. -/
def toDocument (g : Graph) : Json :=
  .object [("rules", .array (g.rules.map Rule.toDocument)),
    ("targets", .array (g.edges.map Edge.toDocument))]

/-- The fields of a graph, in order. -/
def fieldNames : List String := ["rules", "targets"]

/-- The graph that a document describes. -/
def ofDocument? (doc : Json) : Option Graph :=
  match doc.fields? fieldNames with
  | some [rules, edges] => do
    let rules ← Json.required (Json.listOf? Rule.ofDocument?) rules
    let edges ← Json.required (Json.listOf? Edge.ofDocument?) edges
    pure { rules, edges }
  | _ => none

end Graph

/-! ## Keywords -/

/-- The keyword that a document describes: its name, or an object that binds its name to null. -/
def Keyword.ofDocument? : Json → Option Keyword
  | .string name => Keyword.ofName? name
  | .object [(name, .null)] => Keyword.ofName? name
  | _ => none

end BuildGraph
