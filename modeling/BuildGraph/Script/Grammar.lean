import BuildGraph.Script.Value

/-!
# Grammar of descriptions

Statements, and at most one result, at the end.  A statement names a value or is a call whose value
is not used.  An expression is a chain of operands with `..` between them, grouped from the right.

Descriptions are written in Lua, and this is its declarative part: constants, tables, names,
fields of tables, texts put together, and modules that are required.  The rest of the language has
no trees here: functions, loops, conditions, assignments, and operators other than `..`.  A
description that is written with them is refused like one that is no description at all.
-/

namespace BuildGraph.Script

mutual

/-- An expression. -/
inductive Expr where
  | constant (v : Value)
  | name (s : String)
  | index (table key : Expr)
  | concat (left right : Expr)
  | call (function argument : Expr)
  /-- An expression in parentheses, which has one value. -/
  | single (e : Expr)
  | table (fields : Fields)
  /-- A table that carries a value as its type.  It is not written in descriptions, but values that
  come from elsewhere may be such tables. -/
  | typed (table type : Expr)

/-- The fields of a table, in the order in which they are written. -/
inductive Fields where
  | done
  | positional (value : Expr) (rest : Fields)
  | keyed (key value : Expr) (rest : Fields)

end

instance : Inhabited Expr := ⟨.constant .nil⟩

/-- A step of a description. -/
inductive Statement where
  /-- Gives a name to a value. -/
  | define (name : String) (value : Expr)
  /-- Finds a value and leaves it. -/
  | run (e : Expr)
  deriving Inhabited

/-- A description: its statements, and the result. -/
structure Chunk where
  statements : List Statement
  result : Option Expr
  deriving Inhabited

namespace Expr

/-- The words that are no names. -/
def reserved : List String :=
  ["and", "break", "do", "else", "elseif", "end", "false", "for", "function", "goto", "if", "in",
   "local", "nil", "not", "or", "repeat", "return", "then", "true", "until", "while"]

/-- The name of the table in which names are looked for that have no value of their own. -/
def scopeName : String := "_ENV"

/-- The expression of a text. -/
def ofText (s : String) : Expr := .constant (.ofString s)

/-- The expression of bytes. -/
def ofBytes (bytes : List UInt8) : Expr := .constant (.text ⟨bytes.toArray⟩)

/-- An expression without the parentheses around it. -/
def bare : Expr → Expr
  | .single e => bare e
  | e => e

/-- The expression of the table of all markers. -/
def keywordTable : Expr := .index (.name "haga") (ofText "kw")

/-- The chain of some expressions; an empty one is `nil`. -/
def chain : List Expr → Expr
  | [] => .constant .nil
  | [e] => e
  | e :: es => .concat e (chain es)

end Expr

namespace Fields

/-- Fields under given keys. -/
def ofPairs : List (Expr × Expr) → Fields
  | [] => .done
  | (key, value) :: rest => .keyed key value (ofPairs rest)

/-- Fields at the indices from `start` on. -/
def indices (start : Nat) : List Expr → List (Expr × Expr)
  | [] => []
  | e :: es => (.constant (.integer start), e) :: indices (start + 1) es

end Fields

namespace Expr

/-- The table with items at the indices from one on, and then fields under keys. -/
def ofEntries (items : List Expr) (fields : List (Expr × Expr)) : Expr :=
  .table (.ofPairs (Fields.indices 1 items ++ fields))

end Expr

end BuildGraph.Script
