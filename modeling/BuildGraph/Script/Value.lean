import BuildGraph.Decimal.Text
import BuildGraph.Keyword
import BuildGraph.Text

/-!
# Values of descriptions

A description is a small program whose result is a table.  Texts are sequences of bytes; numbers
are 64-bit integers or doubles; a table has a sequence, which ends before the first missing index,
and fields under all other keys.  Some tables have a role: the marker of a keyword, a composition
of texts and markers, the table from which markers are taken, in which every name has one, and the
table of all names.  Two tables with the same entries are still two: each has an identity, by which
it can be a key.
-/

namespace BuildGraph.Script

/-- The kinds of values. -/
inductive Kind where
  | nil
  | boolean
  | integer
  | number
  | string
  | table
  | function
  deriving DecidableEq, Repr, Inhabited

/-- The name of a kind in messages. -/
def Kind.name : Kind → String
  | .nil => "nil"
  | .boolean => "boolean"
  | .integer => "integer"
  | .number => "number"
  | .string => "string"
  | .table => "table"
  | .function => "function"

/-- Which table a table is. -/
inductive Identity where
  /-- A table that every description sees, by its name. -/
  | known (name : String)
  /-- The table that was made at a number; at zero, one that was not told apart yet. -/
  | made (n : Nat)
  deriving DecidableEq, Repr, Inhabited

/-- A function that every description sees. -/
inductive Function where
  /-- Gives the value of a module. -/
  | require
  /-- A function that no description calls, by its name. -/
  | named (name : String)
  deriving DecidableEq, Repr, Inhabited

/-- What a field of a table is stored under. -/
inductive Key where
  | text (bytes : ByteArray)
  | integer (n : Int)
  /-- A double that is no whole number. -/
  | number (d : Double)
  | bool (b : Bool)
  /-- A function, which equals nothing but itself. -/
  | function (f : Function)
  /-- A table, which equals nothing but itself. -/
  | table (i : Identity)
  deriving DecidableEq, Inhabited

/-- What a table serves as. -/
inductive Role where
  | plain
  /-- Stands for a keyword. -/
  | marker
  /-- Holds texts and markers that were concatenated. -/
  | composed
  /-- Has a marker for every name. -/
  | keywords
  /-- Holds the value of every name, its own among them. -/
  | globals
  /-- Carries the name of a type. -/
  | typed (name : String)
  /-- Carries something as its type that is no name. -/
  | untyped (kind : Kind)
  deriving DecidableEq, Repr, Inhabited

/-- What a table is besides its entries. -/
structure Tag where
  identity : Identity := .made 0
  role : Role := .plain
  deriving DecidableEq, Repr, Inhabited

/-- A value of a description. -/
inductive Value where
  | nil
  | bool (b : Bool)
  | integer (n : Int)
  | number (d : Double)
  | text (bytes : ByteArray)
  | function (f : Function)
  | table (tag : Tag) (items : List Value) (fields : List (Key × Value))
  deriving Inhabited

namespace Value

/-! ## Kinds -/

/-- The kind of a value. -/
def kind : Value → Kind
  | .nil => .nil
  | .bool _ => .boolean
  | .integer _ => .integer
  | .number _ => .number
  | .text _ => .string
  | .function _ => .function
  | .table _ _ _ => .table

/-- Whether a value is `nil`. -/
def isNil : Value → Bool
  | .nil => true
  | _ => false

/-- Whether a value counts as true. -/
def isTrue : Value → Bool
  | .nil => false
  | .bool b => b
  | _ => true

/-- The value of a text. -/
def ofString (s : String) : Value := .text s.toUTF8

/-- A table with a sequence. -/
def ofList (items : List Value) : Value := .table {} items []

/-- A table with fields under names. -/
def ofFields (fields : List (String × Value)) : Value :=
  .table {} [] (fields.map fun f => (.text f.1.toUTF8, f.2))

/-! ## Markers -/

/-- The field of a marker that holds its name. -/
def markerField : String := "keyword"

/-- The marker of a name, as a table of some identity. -/
def markerAs (identity : Identity) (name : String) : Value :=
  .table { identity, role := .marker } [] [(.text markerField.toUTF8, ofString name)]

/-- The marker of a name. -/
def marker (name : String) : Value := markerAs (.made 0) name

/-- The name of the table of all markers. -/
def keywordTableName : String := "haga.kw"

/-- The marker of a keyword, which is always the same table. -/
def keywordMarker (k : Keyword) : Value :=
  markerAs (.known (keywordTableName ++ "." ++ k.name)) k.name

/-- The table of all markers; the keywords are stored in it. -/
def keywordTable : Value :=
  .table { identity := .known keywordTableName, role := .keywords } []
    (Keyword.all.map fun k => (.text k.name.toUTF8, keywordMarker k))

/-! ## Reading tables -/

/-- The value stored under a key. -/
def findField (fields : List (Key × Value)) (key : Key) : Value :=
  match fields.find? (·.1 == key) with
  | none => .nil
  | some f => f.2

/-- The value stored under a key of a table. -/
def lookup (items : List Value) (fields : List (Key × Value)) (key : Key) : Value :=
  match key with
  | .integer n =>
    if 1 ≤ n ∧ n ≤ items.length then items.getD (n.toNat - 1) .nil else findField fields key
  | _ => findField fields key

/-- The key that a value is; `nil` and what is no number are none. -/
def key? : Value → Option Key
  | .nil => none
  | .bool b => some (.bool b)
  | .integer n => some (.integer n)
  | .number d =>
    match d.toInt? with
    | some n =>
      if -Int.pow 2 63 ≤ n ∧ n < Int.pow 2 63 then some (.integer n) else some (.number d)
    | none => if d = .nan then none else some (.number d)
  | .text bytes => some (.text bytes)
  | .function f => some (.function f)
  | .table tag _ _ => some (.table tag.identity)

/-! ## Building tables -/

/-- Takes the fields at and after an index into the sequence, as far as it goes; `fuel` bounds
their number. -/
def absorb (fuel : Nat) (items : List Value) (fields : List (Key × Value)) :
    List Value × List (Key × Value) :=
  match fuel with
  | 0 => (items, fields)
  | fuel + 1 =>
    let next : Key := .integer (items.length + 1)
    match fields.find? (·.1 == next) with
    | none => (items, fields)
    | some f => absorb fuel (items ++ [f.2]) (fields.filter (·.1 != next))

/-- The items after a removed one, under their indices. -/
def indexed (start : Nat) : List Value → List (Key × Value)
  | [] => []
  | v :: vs => (.integer start, v) :: indexed (start + 1) vs

/-- A table's entries without a key. -/
def erase (items : List Value) (fields : List (Key × Value)) (key : Key) :
    List Value × List (Key × Value) :=
  match key with
  | .integer n =>
    if 1 ≤ n ∧ n ≤ items.length then
      (items.take (n.toNat - 1), indexed (n.toNat + 1) (items.drop n.toNat) ++ fields)
    else (items, fields.filter (·.1 != key))
  | _ => (items, fields.filter (·.1 != key))

/-- A table's entries with a value stored under a key; storing `nil` removes the key. -/
def store (items : List Value) (fields : List (Key × Value)) (key : Key) (v : Value) :
    List Value × List (Key × Value) :=
  if v.isNil then erase items fields key
  else match key with
    | .integer n =>
      if 1 ≤ n ∧ n ≤ items.length then (items.set (n.toNat - 1) v, fields)
      else if n = items.length + 1 then
        absorb fields.length (items ++ [v]) (fields.filter (·.1 != key))
      else (items, fields.filter (·.1 != key) ++ [(key, v)])
    | _ => (items, fields.filter (·.1 != key) ++ [(key, v)])

/-- The table with a value stored under a key; only tables hold values. -/
def set (t : Value) (key : Key) (v : Value) : Value :=
  match t with
  | .table tag items fields =>
    let stored := store items fields key v
    .table tag stored.1 stored.2
  | t => t

/-- The table with values stored under the indices from `start` on. -/
def setFrom (t : Value) (start : Nat) : List Value → Value
  | [] => t
  | v :: vs => setFrom (t.set (.integer start) v) (start + 1) vs

/-- The empty table. -/
def emptyTable : Value := .table {} [] []

/-- The role of a table that carries a value as its type. -/
def roleOfType : Value → Role
  | .nil => .plain
  | .integer n => .typed (toString n)
  | .number d => .typed d.generalText
  | .text bytes =>
    match String.fromUTF8? bytes with
    | some name => .typed name
    | none => .untyped .string
  | v => .untyped v.kind

/-- A table with a value as its type, in place of what it was before. -/
def withType (t type : Value) : Value :=
  match t with
  | .table tag items fields => .table { tag with role := roleOfType type } items fields
  | t => t

/-! ## Changed roles -/

/-- Roles that tables got, the latest first. -/
abbrev Roles := List (Identity × Role)

/-- What a table is after its role has changed. -/
def Tag.revise (roles : Roles) (tag : Tag) : Tag :=
  match roles.find? (·.1 == tag.identity) with
  | none => tag
  | some r => { tag with role := r.2 }

mutual

/-- A value with the roles that its tables have by now. -/
def revise (roles : Roles) : Value → Value
  | .table tag items fields =>
    .table (Tag.revise roles tag) (reviseItems roles items) (reviseFields roles fields)
  | v => v

/-- The items of a table with the roles that their tables have by now. -/
def reviseItems (roles : Roles) : List Value → List Value
  | [] => []
  | v :: vs => revise roles v :: reviseItems roles vs

/-- The fields of a table with the roles that their tables have by now. -/
def reviseFields (roles : Roles) : List (Key × Value) → List (Key × Value)
  | [] => []
  | (key, v) :: rest => (key, revise roles v) :: reviseFields roles rest

end

/-- A value with the roles that its tables have by now; where none has changed, as it is. -/
def current (roles : Roles) (v : Value) : Value := if roles.isEmpty then v else revise roles v

end Value

end BuildGraph.Script
