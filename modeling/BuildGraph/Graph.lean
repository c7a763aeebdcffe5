import BuildGraph.Bindings

/-!
# Graphs

A rule is a named list of commands.  Its texts are final: keywords have been replaced by their
values.  An edge says how some outputs are made from some inputs by a rule; its paths are final as
well.  A graph is a list of rules and a list of edges.

An executor refuses a graph in which two edges declare one output, so these outputs are listed
(`repeatedOutputs`), each once and in the order in which they occur for the second time.
-/

namespace BuildGraph

/-! ## Rules -/

/-- A named list of commands. -/
structure Rule where
  name : String
  /-- Commands run in sequence, each a list of arguments; a failing one stops the rule. -/
  commands : List (List String)
  /-- What is shown while the rule runs. -/
  description : Option String := none
  /-- The rule rebuilds the build file itself. -/
  generator : Bool := false
  /-- Timestamps of outputs are looked at again after the rule ran. -/
  restat : Bool := false
  deriving DecidableEq, Repr, Inhabited

namespace Rule

/-- Name of the rule for aliases, which the executor has of its own. -/
def aliasName : String := "phony"

/-- Whether two rules agree in everything but their names. -/
def agrees (a b : Rule) : Bool :=
  a.commands = b.commands ∧ a.description = b.description ∧ a.generator = b.generator
    ∧ a.restat = b.restat

end Rule

/-! ## Edges -/

/-- One build step. -/
structure Edge where
  inputs : List String
  outputs : List String
  /-- Inputs that the command does not name. -/
  implicits : List String := []
  /-- Paths that must exist before the step runs and whose changes do not repeat it. -/
  orderOnly : List String := []
  /-- Files whose change makes the build file out of date. -/
  regenImplicits : List String := []
  /-- Name of the rule that makes the outputs. -/
  rule : String
  /-- Variables that the rule's commands use. -/
  vars : Bindings := .empty
  /-- Whether the outputs belong to the default alias. -/
  all : Bool := true
  deriving DecidableEq, Inhabited

namespace Edge

/-- Whether the edge is an alias. -/
def isAlias (e : Edge) : Bool := e.rule == Rule.aliasName

/-- The edge with one variable set. -/
def bind (e : Edge) (name value : String) : Edge :=
  { e with vars := e.vars.insert name value }

end Edge

/-! ## Graphs -/

/-- Rules and the edges that refer to them. -/
structure Graph where
  rules : List Rule
  edges : List Edge
  deriving DecidableEq, Inhabited

namespace Graph

/-- The first rule of a name. -/
def rule? (g : Graph) (name : String) : Option Rule := g.rules.find? (·.name == name)

/-- Every declared output, edge by edge. -/
def outputs (g : Graph) : List String := g.edges.flatMap (·.outputs)

/-- The texts of a list that occurred before, each once, in order of their second occurrence;
`seen` holds what was read and `found` what was listed. -/
def repeatedFrom (seen found : List String) : List String → List String
  | [] => found
  | s :: rest =>
    if s ∈ seen then
      repeatedFrom seen (if s ∈ found then found else found ++ [s]) rest
    else repeatedFrom (s :: seen) found rest

/-- The texts that occur at least twice in a list, in order of their second occurrence. -/
def repeated (l : List String) : List String := repeatedFrom [] [] l

/-- Outputs that are declared more than once. -/
def repeatedOutputs (g : Graph) : List String := repeated g.outputs

example : repeated ["b", "a", "a", "b", "a", "c"] = ["a", "b"] := by decide

end Graph

end BuildGraph
