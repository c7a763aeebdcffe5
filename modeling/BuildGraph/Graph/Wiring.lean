import BuildGraph.Graph

/-!
# Wiring

A build file is made by an edge of its own graph.  Every other edge waits for it without being
repeated when it changes, and every file whose change makes the build file out of date becomes an
input of the edge that makes it.
-/

namespace BuildGraph

/-- Name of the rule that makes the build file. -/
def Rule.regenName : String := "regen"

/-- Whether an edge makes the build file. -/
def Edge.isRegen (e : Edge) : Bool := e.rule == Rule.regenName

namespace Graph

/-- Paths with those of another list that are not among them yet, each once. -/
def addMissing (paths : List String) : List String → List String
  | [] => paths
  | p :: ps => if p ∈ paths then addMissing paths ps else addMissing (paths ++ [p]) ps

/-- A list with its first item that satisfies a test changed. -/
def updateFirst {α : Type} (test : α → Bool) (change : α → α) : List α → List α
  | [] => []
  | a :: as => if test a then change a :: as else a :: updateFirst test change as

/-- Files whose change makes the build file out of date. -/
def regenImplicits (edges : List Edge) : List String := edges.flatMap (·.regenImplicits)

/-- The edges, of which the first that makes the build file has every file among its inputs that
makes it out of date, and those that do not make it wait for the outputs of that one. -/
def wire (edges : List Edge) : List Edge :=
  match edges.find? Edge.isRegen with
  | none => edges
  | some regen =>
    let change (e : Edge) : Edge :=
      { e with implicits := addMissing e.implicits (regenImplicits edges) }
    let wait (e : Edge) : Edge :=
      if e.isRegen then e else { e with orderOnly := e.orderOnly ++ regen.outputs }
    (updateFirst Edge.isRegen change edges).map wait

end Graph

end BuildGraph
