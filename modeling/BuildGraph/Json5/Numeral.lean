import BuildGraph.Decimal.Double
import BuildGraph.Text

/-!
# JSON5 numerals

Numerals as they are written, and which of them have a value.  A whole number must fit 64 bits
with a sign, a hexadecimal one 32 bits without, and any other number must round to a finite
double; a sign excludes the hexadecimal form, and a plus sign the names of infinity and of no
number.
-/

namespace BuildGraph.Json5

open Text (isHexDigit natOf)

/-- A number as it is written. -/
inductive Numeral where
  | hex (sign : Option Char) (digits : List Char)
  /-- `fraction` is there if a point is, and `exponent` if an `e` is. -/
  | decimal (sign : Option Char) (whole : List Char) (fraction : Option (List Char))
      (exponent : Option (Option Char × List Char))
  | infinity (sign : Option Char)
  | notANumber (sign : Option Char)
  deriving DecidableEq, Repr, Inhabited

namespace Numeral

/-! ## Reading -/

/-- Digits at the start of a text, at least one. -/
def digits? (isDigit : Char → Bool) (cs : List Char) : Option (List Char × List Char) :=
  match cs.takeWhile isDigit with
  | [] => none
  | ds => some (ds, cs.dropWhile isDigit)

/-- A sign at the start of a text. -/
def sign : List Char → Option Char × List Char
  | '+' :: cs => (some '+', cs)
  | '-' :: cs => (some '-', cs)
  | cs => (none, cs)

/-- An exponent at the start of a text; an `e` without digits is none. -/
def exponent (cs : List Char) : Option (Option Char × List Char) × List Char :=
  match cs with
  | [] => (none, [])
  | e :: rest =>
    if e = 'e' ∨ e = 'E' then
      match digits? Char.isDigit (sign rest).2 with
      | none => (none, cs)
      | some (ds, rest') => (some ((sign rest).1, ds), rest')
    else (none, cs)

/-- The digits before a point: a single zero, or digits that start with another one. -/
def whole (cs : List Char) : List Char × List Char :=
  match cs with
  | '0' :: rest => (['0'], rest)
  | _ => (cs.takeWhile Char.isDigit, cs.dropWhile Char.isDigit)

/-- A decimal numeral after its sign. -/
def decimal? (s : Option Char) (cs : List Char) : Option (Numeral × List Char) :=
  match whole cs with
  | ([], '.' :: rest) =>
    match digits? Char.isDigit rest with
    | none => none
    | some (ds, rest) => some (.decimal s [] (some ds) (exponent rest).1, (exponent rest).2)
  | ([], _) => none
  | (ws, '.' :: rest) =>
    let tail := rest.dropWhile Char.isDigit
    some (.decimal s ws (some (rest.takeWhile Char.isDigit)) (exponent tail).1, (exponent tail).2)
  | (ws, rest) => some (.decimal s ws none (exponent rest).1, (exponent rest).2)

/-- The numeral after a sign; a hexadecimal mark without digits is read as the number zero. -/
def unsigned? (s : Option Char) (cs : List Char) : Option (Numeral × List Char) :=
  match cs with
  | 'I' :: 'n' :: 'f' :: 'i' :: 'n' :: 'i' :: 't' :: 'y' :: rest => some (.infinity s, rest)
  | 'N' :: 'a' :: 'N' :: rest => some (.notANumber s, rest)
  | '0' :: x :: rest =>
    if x = 'x' ∨ x = 'X' then
      match digits? isHexDigit rest with
      | some (ds, rest) => some (.hex s ds, rest)
      | none => decimal? s cs
    else decimal? s cs
  | _ => decimal? s cs

/-- The numeral at the start of a text. -/
def read? (cs : List Char) : Option (Numeral × List Char) := unsigned? (sign cs).1 (sign cs).2

/-! ## Values -/

/-- Whether `digits * 10 ^ exponent` rounds to a finite double. -/
def isFinite (digits : Nat) (exponent : Int) : Bool :=
  Double.ofDecimal false digits exponent ≠ .infinite false

/-- The value of an exponent; an absent one is zero. -/
def exponentValue : Option (Option Char × List Char) → Int
  | none => 0
  | some (s, ds) => if s = some '-' then -(natOf 10 ds : Int) else natOf 10 ds

/-- Whether a numeral has a value. -/
def hasValue : Numeral → Bool
  | .hex s digits => s = none ∧ natOf 16 digits < Nat.pow 2 32
  | .decimal s ws none none =>
    if s = some '-' then natOf 10 ws ≤ Nat.pow 2 63 else natOf 10 ws < Nat.pow 2 63
  | .decimal _ ws fraction exp =>
    let ds := fraction.getD []
    isFinite (natOf 10 (ws ++ ds)) (exponentValue exp - ds.length)
  | .infinity s => s ≠ some '+'
  | .notANumber s => s ≠ some '+'

/-- Whether a numeral names infinity or no number. -/
def isSpecial : Numeral → Bool
  | .infinity _ => true
  | .notANumber _ => true
  | _ => false

end Numeral

end BuildGraph.Json5
