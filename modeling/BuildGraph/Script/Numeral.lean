import BuildGraph.Script.Value
import BuildGraph.Text

/-!
# Numerals of descriptions

A numeral takes every character that could belong to it, and must then be a number as a whole.
Whole decimal numbers that do not fit 64 bits are doubles; hexadecimal ones wrap around.
-/

namespace BuildGraph.Script

open Text (isHexDigit natOf)

namespace Numeral

/-- Whether a character marks an exponent. -/
def isExponentMark (hex : Bool) (c : Char) : Bool :=
  if hex then c = 'p' ∨ c = 'P' else c = 'e' ∨ c = 'E'

/-- The characters that belong to a numeral; `sign` says that a sign may come next. -/
def span (hex sign : Bool) : List Char → List Char × List Char
  | [] => ([], [])
  | c :: rest =>
    let isMark := isExponentMark hex c
    if isMark ∨ isHexDigit c ∨ c = '.' ∨ (sign ∧ (c = '+' ∨ c = '-')) then
      let r := span hex isMark rest
      (c :: r.1, r.2)
    else ([], c :: rest)

/-- The numeral at the start of a text, and what follows it. -/
def lexeme (cs : List Char) : List Char × List Char :=
  match cs with
  | '0' :: x :: rest =>
    if x = 'x' ∨ x = 'X' then
      let r := span true false rest
      ('0' :: x :: r.1, r.2)
    else span false false cs
  | _ => span false false cs

/-- The 64-bit integer with the same last bits. -/
def wrap (n : Nat) : Int :=
  let r : Nat := n % Nat.pow 2 64
  if r < Nat.pow 2 63 then r else r - Int.pow 2 64

/-- The exponent after its mark. -/
def exponent? (cs : List Char) : Option Int :=
  let (negative, ds) := match cs with
    | '-' :: ds => (true, ds)
    | '+' :: ds => (false, ds)
    | ds => (false, ds)
  if ds ≠ [] ∧ ds.all Char.isDigit then
    some (if negative then -(natOf 10 ds : Int) else natOf 10 ds)
  else none

/-- The number of a decimal numeral that is no integer. -/
def double? (cs : List Char) : Option Double :=
  let whole := cs.takeWhile Char.isDigit
  let afterWhole := cs.dropWhile Char.isDigit
  let (fraction, tail) := match afterWhole with
    | '.' :: rest => (rest.takeWhile Char.isDigit, rest.dropWhile Char.isDigit)
    | rest => ([], rest)
  if whole = [] ∧ fraction = [] then none
  else
    let exp := match tail with
      | [] => some 0
      | e :: rest => if isExponentMark false e then exponent? rest else none
    exp.map fun e => Double.ofDecimal false (natOf 10 (whole ++ fraction)) (e - fraction.length)

/-- The value of a numeral. -/
def value? (cs : List Char) : Option Value :=
  match cs with
  | '0' :: 'x' :: ds => hex? ds
  | '0' :: 'X' :: ds => hex? ds
  | _ =>
    if cs ≠ [] ∧ cs.all Char.isDigit ∧ natOf 10 cs < Nat.pow 2 63 then some (.integer (natOf 10 cs))
    else (double? cs).map .number
where
  /-- The value of hexadecimal digits. -/
  hex? (ds : List Char) : Option Value :=
    if ds ≠ [] ∧ ds.all isHexDigit then some (.integer (wrap (natOf 16 ds))) else none

end Numeral

end BuildGraph.Script
