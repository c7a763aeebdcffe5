/-!
# JSON documents

Documents as they are exchanged with other programs.  The members of an object keep the order in
which they are written.  Records are read by the names of their fields, or from an array that
holds the fields in order and may stop before the optional ones (`fields?`).
-/

namespace BuildGraph

/-- A JSON document. -/
inductive Json where
  | null
  | bool (b : Bool)
  /-- A number by its text; no document of this library writes one. -/
  | number (text : String)
  | string (s : String)
  | array (items : List Json)
  | object (members : List (String × Json))
  deriving Inhabited

namespace Json

/-! ## Scalars and lists -/

/-- The text of a string. -/
def text? : Json → Option String
  | .string s => some s
  | _ => none

/-- The value of a truth value. -/
def bool? : Json → Option Bool
  | .bool b => some b
  | _ => none

/-- The items of an array, each read by `read`. -/
def listOf? {α : Type} (read : Json → Option α) : Json → Option (List α)
  | .array items => items.mapM read
  | _ => none

/-- The texts of an array of strings. -/
def texts? : Json → Option (List String) := listOf? text?

/-- The members of an object, each value read by `read`. -/
def membersOf? {α : Type} (read : Json → Option α) : Json → Option (List (String × α))
  | .object members => members.mapM fun m => (read m.2).map fun v => (m.1, v)
  | _ => none

/-- An array of strings. -/
def ofTexts (texts : List String) : Json := .array (texts.map .string)

/-! ## Records -/

/-- The value of a member that an object may have once; `none` if it is written twice. -/
def member? (members : List (String × Json)) (name : String) : Option (Option Json) :=
  match members.filter (·.1 == name) with
  | [] => some none
  | [m] => some (some m.2)
  | _ => none

/-- The fields of a record, in the order of `names`, absent ones as `none`. -/
def fields? (names : List String) : Json → Option (List (Option Json))
  | .object members => names.mapM (member? members)
  | .array items =>
    if items.length ≤ names.length then
      some (items.map some ++ List.replicate (names.length - items.length) none)
    else none
  | _ => none

/-- A field that must be there. -/
def required {α : Type} (read : Json → Option α) : Option Json → Option α
  | none => none
  | some doc => read doc

/-- A field that has a value when it is absent. -/
def optional {α : Type} (default : α) (read : Json → Option α) : Option Json → Option α
  | none => some default
  | some doc => read doc

/-- A value that may be written as null. -/
def nullable {α : Type} (read : Json → Option α) : Json → Option (Option α)
  | .null => some none
  | doc => (read doc).map some

/-- A member that is left out where the flag is false. -/
def memberIf (written : Bool) (name : String) (doc : Json) : List (String × Json) :=
  if written then [(name, doc)] else []

end Json

end BuildGraph
