import BuildGraph.Json
import BuildGraph.Text

/-!
# Printing JSON

Documents are printed over several lines, each level two spaces further in; empty arrays and
objects take one line.  In a string the quote, the backslash and the control characters below the
space are escaped, and nothing else.
-/

namespace BuildGraph.Json

/-- The digit of a number below sixteen. -/
def hexDigit (n : Nat) : Char :=
  if n < 10 then Char.ofNat (48 + n) else Char.ofNat (87 + n)

/-- The characters that stand for a character inside a string. -/
def escapeChar (c : Char) : List Char :=
  if c = '\x22' then ['\\', '\x22']
  else if c = '\\' then ['\\', '\\']
  else if c = '\x08' then ['\\', 'b']
  else if c = '\x0c' then ['\\', 'f']
  else if c = '\n' then ['\\', 'n']
  else if c = '\r' then ['\\', 'r']
  else if c = '\t' then ['\\', 't']
  else if c.toNat < 32 then
    ['\\', 'u', '0', '0', hexDigit (c.toNat / 16), hexDigit (c.toNat % 16)]
  else [c]

/-- A text between quotes. -/
def quote (s : String) : String :=
  String.ofList ('\x22' :: s.toList.flatMap escapeChar ++ ['\x22'])

/-- A new line at a level. -/
def newline (level : Nat) : String := String.ofList ('\n' :: List.replicate (2 * level) ' ')

/-- Printed items between brackets, one on each line. -/
def bracketed (left right : String) (level : Nat) (items : List String) : String :=
  if items = [] then left ++ right
  else left ++ newline (level + 1) ++ Text.join ("," ++ newline (level + 1)) items
    ++ newline level ++ right

mutual

/-- The text of a document at a level. -/
def render (level : Nat) : Json → String
  | .null => "null"
  | .bool true => "true"
  | .bool false => "false"
  | .number text => text
  | .string s => quote s
  | .array items => bracketed "[" "]" level (renderItems (level + 1) items)
  | .object members => bracketed "\x7b" "\x7d" level (renderMembers (level + 1) members)

/-- The texts of the items of an array. -/
def renderItems (level : Nat) : List Json → List String
  | [] => []
  | item :: items => render level item :: renderItems level items

/-- The texts of the members of an object. -/
def renderMembers (level : Nat) : List (String × Json) → List String
  | [] => []
  | (name, doc) :: members =>
    (quote name ++ ": " ++ render level doc) :: renderMembers level members

end

/-- The text of a document. -/
def print (doc : Json) : String := render 0 doc

example : (Json.object [("a", .array []), ("b", .array [.null, .string "\n"])]).print
    = "\x7b\n  \"a\": [],\n  \"b\": [\n    null,\n    \"\\n\"\n  ]\n\x7d" := by decide +kernel

end BuildGraph.Json
