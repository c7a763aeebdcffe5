import BuildGraph.Graph
import BuildGraph.Text

/-!
# Build files

The text of a graph for the executor: a header, the rules, the edges, and an alias of all default
outputs.  Commands are written as they are, because they name the executor's variables; paths and
values are escaped with `$`.  On the line that names paths a space ends a path and a colon ends the
outputs, so both are escaped there; in the value of a variable only `$` and the end of the line
need it.
-/

namespace BuildGraph.Ninja

/-! ## Escapes -/

/-- The characters of a path with its escapes. -/
def pathChars : List Char → List Char
  | [] => []
  | c :: cs =>
    if c = '$' ∨ c = ' ' ∨ c = ':' ∨ c = '\n' then '$' :: c :: pathChars cs
    else c :: pathChars cs

/-- The characters of a value with its escapes. -/
def valueChars : List Char → List Char
  | [] => []
  | c :: cs =>
    if c = '$' ∨ c = '\n' then '$' :: c :: valueChars cs
    else c :: valueChars cs

/-- A path as it is written where paths are listed. -/
def pathText (path : String) : String := String.ofList (pathChars path.toList)

/-- A value as it is written after the name of a variable. -/
def valueText (value : String) : String := String.ofList (valueChars value.toList)

/-! ## Blocks -/

/-- Name of the alias of all default outputs. -/
def defaultAlias : String := "all"

/-- Name of the build file in the output directory. -/
def buildFileName : String := "build.ninja"

/-- The lines before the first rule. -/
def header : String := "# Generated by haga. Do not edit.\nninja_required_version = 1.7\n\n"

/-- Paths, each after a space. -/
def pathList (paths : List String) : String :=
  Text.concat (paths.map fun p => " " ++ pathText p)

/-- The command line of a rule. -/
def commandLine (commands : List (List String)) : String :=
  Text.join " && " (commands.map (Text.join " "))

/-- The block of a rule. -/
def ruleText (r : Rule) : String :=
  "rule " ++ r.name ++ "\n"
    ++ "  command = " ++ commandLine r.commands ++ "\n"
    ++ (match r.description with
        | none => ""
        | some d => "  description = " ++ d ++ "\n")
    ++ (if r.generator then "  generator = 1\n" else "")
    ++ (if r.restat then "  restat = 1\n" else "")
    ++ "\n"

/-- Implicit inputs of an edge as they are written: those that make the build file out of date
follow, unless they are among them already. -/
def writtenImplicits (e : Edge) : List String :=
  e.implicits ++ e.regenImplicits.filter (· ∉ e.implicits)

/-- Paths after a mark, nothing if there are none. -/
def markedPaths (mark : String) (paths : List String) : String :=
  if paths = [] then "" else mark ++ pathList paths

/-- The lines of an edge's variables. -/
def varLines (vars : Bindings) : String :=
  Text.concat (vars.entries.map fun v => "  " ++ v.1 ++ " = " ++ valueText v.2 ++ "\n")

/-- The block of an edge. -/
def edgeText (e : Edge) : String :=
  "build" ++ pathList e.outputs ++ ": " ++ e.rule ++ pathList e.inputs
    ++ markedPaths " |" (writtenImplicits e)
    ++ markedPaths " ||" e.orderOnly
    ++ "\n"
    ++ varLines e.vars
    ++ "\n"

/-- Outputs that are built by default. -/
def defaultOutputs (g : Graph) : List String :=
  (g.edges.filter (·.all)).flatMap (·.outputs)

/-- The alias of all default outputs, and the line that makes it the default. -/
def footer (g : Graph) : String :=
  "build " ++ defaultAlias ++ ": phony" ++ pathList (defaultOutputs g) ++ "\n"
    ++ "default " ++ defaultAlias ++ "\n"

/-- The text of a graph. -/
def buildFile (g : Graph) : String :=
  header ++ Text.concat (g.rules.map ruleText) ++ Text.concat (g.edges.map edgeText) ++ footer g

end BuildGraph.Ninja
