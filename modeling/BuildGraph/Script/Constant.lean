import BuildGraph.Script.Value

/-!
# Constants of descriptions

The constants that a description mentions are numbered in the order in which they are needed, equal
ones once.  Only the first `maxNear` of them can be used where they are; any other has to be put in
a place before it is used (`Constants.use`).

Constants are found by keys, and a key leads to the constant that took it last.  An integer and a
double that are equal are two constants, so a double that is a whole number has the key of a double
next to it, which may be that of another constant if it is large.
-/

namespace BuildGraph.Script

/-- A value that is written in a description. -/
inductive Constant where
  | nil
  | bool (b : Bool)
  | integer (n : Int)
  | number (d : Double)
  | text (bytes : ByteArray)
  deriving DecidableEq, Inhabited

namespace Constant

/-- The constant that a value is, if it is one. -/
def ofValue? : Value → Option Constant
  | .nil => some .nil
  | .bool b => some (.bool b)
  | .integer n => some (.integer n)
  | .number d => some (.number d)
  | .text bytes => some (.text bytes)
  | _ => none

/-- A double next to a whole number; next to zero it is the distance from one to its neighbour. -/
def besides (n : Int) : Double :=
  if n = 0 then .ofQuotient false 1 (Nat.pow 2 52)
  else .ofQuotient (n < 0) (n.natAbs * (Nat.pow 2 52 + 1)) (Nat.pow 2 52)

/-- The key of a constant; `nil` has none. -/
def key? : Constant → Option Key
  | .nil => none
  | .bool b => some (.bool b)
  | .integer n => some (.integer n)
  | .number d =>
    match (Value.number d).key? with
    | some (.integer n) => (Value.number (besides n)).key?
    | key => key
  | .text bytes => some (.text bytes)

/-- Whether a number is so small that it is never numbered when it is put in a place. -/
def isSmall (n : Int) : Bool := -65535 ≤ n ∧ n ≤ 65536

/-- Whether a constant is numbered when it is put in a place. -/
def isNumbered : Constant → Bool
  | .nil => false
  | .bool _ => false
  | .integer n => !isSmall n
  | .number d => !d.toInt?.any isSmall
  | .text _ => true

end Constant

/-- The constants of a description so far. -/
structure Constants where
  /-- The number of constants. -/
  size : Nat := 0
  /-- The constants that can be used where they are, by key. -/
  near : List (Option Key × Constant) := []
  deriving Inhabited

namespace Constants

/-- The number of constants that can be used where they are. -/
def maxNear : Nat := 256

/-- The constants without what a key leads to. -/
def forget (cs : Constants) (key : Option Key) : Constants :=
  { cs with near := cs.near.filter (·.1 != key) }

/-- The constants with one more, and whether it can be used where it is. -/
def add (cs : Constants) (c : Constant) : Bool × Constants :=
  let others := cs.forget c.key?
  if cs.size < maxNear then (true, ⟨cs.size + 1, (c.key?, c) :: others.near⟩)
  else (false, others)

/-- The constants once one is used, and whether it can be used where it is. -/
def use (cs : Constants) (c : Constant) : Bool × Constants :=
  match cs.near.find? (·.1 == c.key?) with
  | some found => if found.2 = c then (true, cs) else cs.add c
  | none => cs.add c

/-- The constants once one is put in a place. -/
def load (cs : Constants) (c : Constant) : Constants := if c.isNumbered then (cs.use c).2 else cs

end Constants

end BuildGraph.Script
