import BuildGraph.Script.Error
import BuildGraph.Script.Library
import BuildGraph.Template
import BuildGraph.Text.Utf8

/-!
# Taking values for what is wanted

Texts, flags and tables out of values.  Where a text is wanted a number will do, by its general
text.  A table is read by its sequence or by the names of its fields; a missing field is `nil`,
except in the table of keywords, where every name has a marker.
-/

namespace BuildGraph.Script

namespace Value

/-! ## Texts -/

/-- The bytes of a text, and of a number by its general text. -/
def bytes? : Value → Option ByteArray
  | .text bytes => some bytes
  | .integer n => some (toString n).toUTF8
  | .number d => some d.generalText.toUTF8
  | _ => none

/-- The characters of bytes that are wanted as something. -/
def decode (wanted : Wanted) (bytes : ByteArray) : Except Error String :=
  match String.fromUTF8? bytes with
  | some s => .ok s
  | none => .error (.conversion .string wanted (.invalidText (Text.utf8Message bytes.data.toList)))

/-- The characters of a text. -/
def characters (bytes : ByteArray) : Except Error String := decode .characters bytes

/-- The text of a text or a number. -/
def asText (v : Value) : Except Error String :=
  match v.bytes? with
  | some bytes => decode .text bytes
  | none => .error (.conversion v.kind .text .notTextOrNumber)

/-- The text of a value that may be `nil`. -/
def asOptionalText (v : Value) : Except Error (Option String) :=
  if v.isNil then .ok none else v.asText.map some

/-- The truth of a value that may be `nil`. -/
def asFlag (v : Value) (default : Bool) : Bool := if v.isNil then default else v.isTrue

/-! ## Tables -/

/-- The sequence of a table; other values have none. -/
def items : Value → List Value
  | .table _ items _ => items
  | _ => []

/-- The name of the marker that stands under a value in the table of keywords. -/
def markerName : Value → Except Error String
  | .nil => .ok "Nil"
  | .bool true => .ok "Boolean(true)"
  | .bool false => .ok "Boolean(false)"
  | .integer n => .ok ("Integer(" ++ toString n ++ ")")
  | .number d => .ok ("Number(" ++ d.plainText ++ ")")
  | .text bytes => characters bytes
  | .function _ => .ok "Function"
  | .table _ _ _ => .ok "Table"

/-- The name of the table of all names, under which it is stored in itself. -/
def globalsName : String := "_G"

/-- Whether a key is a given text. -/
def isNamed (key : Value) (name : String) : Bool :=
  match key with
  | .text bytes => bytes == name.toUTF8
  | _ => false

/-- The value stored under another in a table.  A text has the functions on texts. -/
def index (t key : Value) : Except Error Value :=
  match t with
  | .table tag items fields =>
    let found := match key.key? with
      | none => .nil
      | some k => lookup items fields k
    match tag.role with
    | .keywords => if found.isNil then (markerName key).map marker else .ok found
    | .globals => .ok (if key.isNamed globalsName then t else found)
    | _ => .ok found
  | .text _ => .ok (Library.textFunction key)
  | _ => .error .badOperation

/-- The field of a table under a name; other values have no fields. -/
def get (t : Value) (name : String) : Value :=
  match t with
  | .table tag items fields =>
    let found := lookup items fields (.text name.toUTF8)
    match tag.role with
    | .keywords => if found.isNil then marker name else found
    | .globals => if name = globalsName then t else found
    | _ => found
  | _ => .nil

/-! ## Markers -/

/-- The type of marker tables. -/
def markerType : String := "HagaKeyword"

/-- Whether a table with a role stands for a keyword. -/
def isMarkerRole : Role → Except Error Bool
  | .marker => .ok true
  | .typed name => .ok (name == markerType)
  | .untyped kind => .error (.conversion kind .text .none)
  | _ => .ok false

/-- The fragment that a table stands for, if it is a marker. -/
def fragment? (t : Value) : Except Error (Option Fragment) :=
  match t with
  | .table tag _ _ =>
    match isMarkerRole tag.role with
    | .error e => .error e
    | .ok false => .ok none
    | .ok true => (t.get markerField).asText.map fun name => some (.ofName name)
  | _ => .ok none

/-- The text that a value shows; tables other than markers, and functions, have none. -/
def display? : Value → Except Error (Option String)
  | .nil => .ok (some "nil")
  | .bool true => .ok (some "true")
  | .bool false => .ok (some "false")
  | .integer n => .ok (some (toString n))
  | .number d => .ok (some d.plainText)
  | .text bytes => (characters bytes).map some
  | .function _ => .ok none
  | .table tag items fields =>
    match tag.role with
    | .marker => ((Value.table tag items fields).get markerField).asText.map fun name =>
        some (keywordTableName ++ "." ++ name)
    | _ => .ok none

end Value

end BuildGraph.Script
