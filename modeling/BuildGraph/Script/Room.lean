import BuildGraph.Script.Constant
import BuildGraph.Script.Grammar

/-!
# Limits of descriptions

How large a description may be.  A statement and every expression in it is one level deeper than
what it stands in, and only so many levels are read (`Room.enter`).  The values that are at hand at
one time, those of names among them, have numbered places, of which there are only so many
(`Room.hold`).  Values of names and the first constants of a description need no further place while
they are read where they are; all else takes one before anything is done with it.
-/

namespace BuildGraph.Script

/-- What is wrong with the text of a description. -/
inductive Flaw where
  | form
  /-- It is nested too deeply. -/
  | depth
  deriving DecidableEq, Repr, Inhabited

/-- The number of levels that is too many. -/
def maxDepth : Nat := 200

/-- The number of places that is too many. -/
def maxPlaces : Nat := 255

/-- The greatest number of names in a description. -/
def maxNames : Nat := 200

/-- The greatest number of bytes in a key that needs no place. -/
def maxShortKey : Nat := 40

/-- The greatest index that needs no place. -/
def maxShortIndex : Nat := 255

/-- Number of values without keys that a table collects before they are stored. -/
def batch : Nat := 50

/-- What is in use where an expression is read. -/
structure Room where
  /-- Names that were given to values, the latest first. -/
  names : List String := []
  /-- Number of levels. -/
  depth : Nat := 0
  /-- Number of places. -/
  used : Nat := 0
  deriving Repr, Inhabited

namespace Room

/-- One level deeper. -/
def enter (room : Room) : Except Flaw Room :=
  if maxDepth ≤ room.depth + 1 then .error .depth else .ok { room with depth := room.depth + 1 }

/-- With some more places in use. -/
def hold (room : Room) (count : Nat) : Except Flaw Room :=
  if count = 0 then .ok room
  else if maxPlaces ≤ room.used + count then .error .form
  else .ok { room with used := room.used + count }

/-- With one more name. -/
def addName (room : Room) (name : String) : Except Flaw Room :=
  if maxNames < room.names.length + 1 then .error .form
  else .ok { room with names := name :: room.names }

/-- Whether a name was given to a value. -/
def knows (room : Room) (name : String) : Bool := room.names.contains name

/-! ## Places of expressions -/

/-- What expressions need, as constants are numbered on the way. -/
abbrev Placing := StateM Constants

/-- Uses a constant, and tells whether it can be used where it is. -/
def use (c : Constant) : Placing Bool := modifyGet (·.use c)

/-- Number of places that an expression needs so that its value is in one. -/
def placesOf (room : Room) (e : Expr) : Placing Nat :=
  match e.bare with
  | .name s => pure (if room.knows s then 0 else 1)
  | .constant v => do
    match Constant.ofValue? v with
    | some c => modify (·.load c)
    | none => pure ()
    pure 1
  | _ => pure 1

/-- Whether a text can be part of what is done with it, without a place. -/
def useShortText (bytes : ByteArray) : Placing Bool := do
  let near ← use (.text bytes)
  pure (near && decide (bytes.size ≤ maxShortKey))

/-- Number of places that a key needs. -/
def keyPlaces (room : Room) (key : Expr) : Placing Nat :=
  match key.bare with
  | .constant (.text bytes) => do pure (if ← useShortText bytes then 0 else 1)
  | .constant (.integer n) => if 0 ≤ n ∧ n ≤ maxShortIndex then pure 0 else room.placesOf key
  | _ => room.placesOf key

/-- Number of places that a value needs before it is stored under a key. -/
def storedPlaces (room : Room) (v : Expr) : Placing Nat :=
  match v.bare with
  | .constant c =>
    match Constant.ofValue? c with
    | some c => do if ← use c then pure 0 else room.placesOf v
    | none => room.placesOf v
  | _ => room.placesOf v

/-! ## Places of tables that are indexed -/

/-- Whether an expression is the table in which names are looked for. -/
def isScope (room : Room) : Expr → Bool
  | .name s => s == Expr.scopeName && !room.knows s
  | _ => false

/-- Number of places that a table needs before its key is read. -/
def tablePlaces (room : Room) (t : Expr) : Placing Nat :=
  if room.isScope t then pure 0 else room.placesOf t

/-- Number of places that a key needs, with one for the table of all names where the key is not
short. -/
def indexPlaces (room : Room) (t key : Expr) : Placing Nat := do
  let places ← room.keyPlaces key
  let isText := match key.bare with
    | .constant (.text _) => true
    | _ => false
  pure (if room.isScope t && !(isText && places == 0) then places + 1 else places)

/-- Number of places that finding the value of a name needs. -/
def namePlaces (room : Room) (name : String) : Placing Nat :=
  if room.knows name || name == Expr.scopeName then pure 0
  else room.indexPlaces (.name Expr.scopeName) (Expr.ofText name)

/-- Whether an expression may have several values. -/
def isOpen : Expr → Bool
  | .call _ _ => true
  | _ => false

end Room

end BuildGraph.Script
