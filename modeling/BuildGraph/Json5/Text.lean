import BuildGraph.Json5.Numeral

/-!
# JSON5 strings

The inside of a string is read as pieces: characters, and units of UTF-16 written as `\uHHHH`.
A continued line is no piece.  Units of the surrogate range must come in pairs, high before low,
with no other piece between them.
-/

namespace BuildGraph.Json5

/-- A part of a string or an identifier. -/
inductive Piece where
  | char (c : Char)
  /-- A unit of UTF-16 written by its number. -/
  | unit (n : Nat)
  deriving DecidableEq, Repr, Inhabited

/-- Whether a character ends a line. -/
def isLineEnd (c : Char) : Bool := c = '\n' ∨ c = '\r' ∨ c = '\u2028' ∨ c = '\u2029'

namespace Piece

/-! ## Escapes -/

/-- The number of hexadecimal digits. -/
def hex? (ds : List Char) : Option Nat :=
  if ds.all Text.isHexDigit then some (Text.natOf 16 ds) else none

/-- The character that a backslash and one more character stand for; digits other than zero, and
the marks of numbers, stand for none. -/
def escape? (c : Char) : Option Char :=
  if c = 'b' then some '\x08'
  else if c = 'f' then some '\x0c'
  else if c = 'n' then some '\n'
  else if c = 'r' then some '\r'
  else if c = 't' then some '\t'
  else if c = 'v' then some '\x0b'
  else if c = '0' then some '\x00'
  else if c.isDigit ∨ c = 'x' ∨ c = 'u' then none
  else some c

/-- The pieces up to the closing quote, and what follows it. -/
def readString (quote : Char) : List Char → Option (List Piece × List Char)
  | [] => none
  | '\\' :: '\r' :: '\n' :: rest => readString quote rest
  | '\\' :: 'x' :: a :: b :: rest =>
    match hex? [a, b], readString quote rest with
    | some n, some (ps, rest) => some (.char (Char.ofNat n) :: ps, rest)
    | _, _ => none
  | '\\' :: 'u' :: a :: b :: c :: d :: rest =>
    match hex? [a, b, c, d], readString quote rest with
    | some n, some (ps, rest) => some (.unit n :: ps, rest)
    | _, _ => none
  | '\\' :: c :: rest =>
    if isLineEnd c then readString quote rest
    else match escape? c, readString quote rest with
      | some e, some (ps, rest) => some (.char e :: ps, rest)
      | _, _ => none
  | c :: rest =>
    if c = quote then some ([], rest)
    else if c = '\\' ∨ isLineEnd c then none
    else match readString quote rest with
      | some (ps, rest) => some (.char c :: ps, rest)
      | none => none

/-! ## Decoding -/

/-- Whether a unit is the first of a pair. -/
def isHigh (n : Nat) : Bool := 0xD800 ≤ n ∧ n < 0xDC00

/-- Whether a unit is the second of a pair. -/
def isLow (n : Nat) : Bool := 0xDC00 ≤ n ∧ n < 0xE000

/-- The number that a pair of units stands for: the ten last bits of each, and bit 16 set.  It is
set and not added, so pairs from `\ud840` on stand for characters of lower planes than UTF-16 has
them in. -/
def pairValue (hi lo : Nat) : Nat := 0x10000 ||| (hi - 0xD800) <<< 10 ||| (lo - 0xDC00)

/-- The characters of pieces; `none` if a unit of the surrogate range stands alone. -/
def decode : List Piece → Option (List Char)
  | [] => some []
  | .char c :: rest => (decode rest).map (c :: ·)
  | .unit hi :: .unit lo :: rest =>
    if isHigh hi then
      if isLow lo then
        (decode rest).map (Char.ofNat (pairValue hi lo) :: ·)
      else none
    else if isLow hi then none
    else (decode (.unit lo :: rest)).map (Char.ofNat hi :: ·)
  | .unit n :: rest =>
    if isHigh n ∨ isLow n then none else (decode rest).map (Char.ofNat n :: ·)

/-- The text of pieces. -/
def text? (ps : List Piece) : Option String := (decode ps).map String.ofList

end Piece

end BuildGraph.Json5
