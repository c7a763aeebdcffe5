import BuildGraph.Json
import BuildGraph.Json5.Token

/-!
# JSON5 documents

The documents that people write by hand: JSON with comments, unquoted names, single quotes, other
spellings of numbers, and one comma allowed after the last item.  The members of an object are all
kept, also those of one name.

The reader descends into arrays and objects on a budget of steps.  Every second step at least
takes a token, so twice the number of tokens, and two, is enough.
-/

namespace BuildGraph.Json5

/-- The name that a token gives to a member. -/
def name? : Token → Option String
  | .word name _ => some name
  | .string s => some s
  | _ => none

mutual

/-- The value at the start of a list of tokens. -/
def value? : Nat → List Token → Option (Json × List Token)
  | 0, _ => none
  | fuel + 1, ts =>
    match ts with
    | .word "null" true :: rest => some (.null, rest)
    | .word "true" true :: rest => some (.bool true, rest)
    | .word "false" true :: rest => some (.bool false, rest)
    | .word "Infinity" true :: rest => some (.null, rest)
    | .word "NaN" true :: rest => some (.null, rest)
    | .string s :: rest => some (.string s, rest)
    | .number n text :: rest => some (if n.isSpecial then .null else .number text, rest)
    | .mark '[' :: rest => (items? fuel rest).map fun r => (.array r.1, r.2)
    | .mark '\x7b' :: rest => (members? fuel rest).map fun r => (.object r.1, r.2)
    | _ => none

/-- The items after an opening bracket or a comma, through the closing bracket. -/
def items? : Nat → List Token → Option (List Json × List Token)
  | 0, _ => none
  | fuel + 1, ts =>
    match ts with
    | .mark ']' :: rest => some ([], rest)
    | _ =>
      match value? fuel ts with
      | some (item, .mark ']' :: rest) => some ([item], rest)
      | some (item, .mark ',' :: rest) =>
        (items? fuel rest).map fun r => (item :: r.1, r.2)
      | _ => none

/-- The members after an opening brace or a comma, through the closing brace. -/
def members? : Nat → List Token → Option (List (String × Json) × List Token)
  | 0, _ => none
  | fuel + 1, ts =>
    match ts with
    | .mark '\x7d' :: rest => some ([], rest)
    | key :: .mark ':' :: rest =>
      match name? key, value? fuel rest with
      | some name, some (item, .mark '\x7d' :: rest) => some ([(name, item)], rest)
      | some name, some (item, .mark ',' :: rest) =>
        (members? fuel rest).map fun r => ((name, item) :: r.1, r.2)
      | _, _ => none
    | _ => none

end

/-- The document that a text holds. -/
def parse? (text : String) : Option Json :=
  match Token.ofText? text with
  | none => none
  | some ts =>
    match value? (2 * ts.length + 2) ts with
    | some (doc, []) => some doc
    | _ => none

end BuildGraph.Json5
