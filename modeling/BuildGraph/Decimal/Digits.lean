import BuildGraph.Decimal.Double

/-!
# Decimal digits of doubles

Two ways to choose decimal digits for a double: the fewest that read back as it (`shortest`), and a
fixed number of significant ones (`nearest`).  Both look at the grid of decimals with a given
number of digits that lies around the value, in exact arithmetic.
-/

namespace BuildGraph

/-- A positive number `digits * 10 ^ exponent`. -/
structure Decimal where
  digits : Nat
  exponent : Int
  deriving DecidableEq, Repr, Inhabited

namespace Decimal

/-- Number of decimal digits. -/
def size (n : Nat) : Nat := (Nat.toDigits 10 n).length

/-- A power of ten that makes every positive double greater than one. -/
def shift : Nat := 400

/-- The exponent of the first digit of a positive double. -/
def leading (mantissa : Nat) (exponent : Int) : Int :=
  let q := Double.quotient mantissa exponent
  (size (q.1 * Nat.pow 10 shift / q.2) : Int) - 1 - shift

/-- Numerator and denominator of `num / den / 10 ^ e`. -/
def scaleDown (num den : Nat) (e : Int) : Nat × Nat :=
  match e with
  | .ofNat k => (num, den * Nat.pow 10 k)
  | .negSucc k => (num * Nat.pow 10 (k + 1), den)

/-- A point of the grid with `n` digits; the first with more digits is written with `n`. -/
def onGrid (n digits : Nat) (unit : Int) : Decimal :=
  if digits = Nat.pow 10 n then ⟨Nat.pow 10 (n - 1), unit + 1⟩ else ⟨digits, unit⟩

/-! ## A fixed number of digits -/

/-- The nearest decimal with `n` significant digits, of two equally near the even one. -/
def nearest (n mantissa : Nat) (exponent : Int) : Decimal :=
  let unit := leading mantissa exponent - n + 1
  let q := Double.quotient mantissa exponent
  let scaled := scaleDown q.1 q.2 unit
  onGrid n (Double.roundDiv scaled.1 scaled.2) unit

/-! ## The fewest digits -/

/-- The decimals that round to a double lie between these two, in quarters of its last bit.  Below
a power of two the doubles are twice as dense. -/
def interval (mantissa : Nat) (exponent : Int) : Nat × Nat :=
  if mantissa = Nat.pow 2 (Double.precision - 1) ∧ exponent ≠ Double.minExponent then
    (4 * mantissa - 1, 4 * mantissa + 2)
  else (4 * mantissa - 2, 4 * mantissa + 2)

/-- Whether a decimal rounds to the double; the ends of the interval do if the mantissa is even. -/
def readsBack (mantissa : Nat) (exponent : Int) (d : Decimal) : Bool :=
  let ends := interval mantissa exponent
  -- the decimal in quarters of the last bit, as a quotient
  let ten := scaleDown d.digits 1 (-d.exponent)
  let q := Double.scaleDown ten.1 ten.2 (exponent - 2)
  if mantissa % 2 = 0 then ends.1 * q.2 ≤ q.1 ∧ q.1 ≤ ends.2 * q.2
  else ends.1 * q.2 < q.1 ∧ q.1 < ends.2 * q.2

/-- The nearer of the two neighbours on the grid of `n` digits that read back, the greater one of
two equally near. -/
def neighbour? (n mantissa : Nat) (exponent : Int) : Option Decimal :=
  let unit := leading mantissa exponent - n + 1
  let q := Double.quotient mantissa exponent
  let scaled := scaleDown q.1 q.2 unit
  let below := onGrid n (scaled.1 / scaled.2) unit
  let above := onGrid n (scaled.1 / scaled.2 + 1) unit
  match readsBack mantissa exponent below, readsBack mantissa exponent above with
  | true, true => some (if 2 * (scaled.1 % scaled.2) < scaled.2 then below else above)
  | true, false => some below
  | false, true => some above
  | false, false => none

/-- The decimal on the first grid that has one that reads back, from `n` digits on; `fuel` is the
number of grids that are looked at. -/
def firstGrid (mantissa : Nat) (exponent : Int) : (fuel n : Nat) → Decimal
  | 0, n => nearest n mantissa exponent
  | fuel + 1, n =>
    match neighbour? n mantissa exponent with
    | some d => d
    | none => firstGrid mantissa exponent fuel (n + 1)

/-- Number of significant digits of which some always read back. -/
def sufficientDigits : Nat := 17

/-- The decimal with the fewest digits that reads back as a positive double. -/
def shortest (mantissa : Nat) (exponent : Int) : Decimal :=
  firstGrid mantissa exponent sufficientDigits 1

-- both neighbours with seventeen digits read back and are equally near
example : shortest (1125899906842624 * 4 + 1) (-2) = ⟨11258999068426243, -1⟩ := by decide +kernel

/-! ## Trailing zeros -/

/-- Digits without the zeros at their end. -/
def trimZeros (ds : List Char) : List Char := (ds.reverse.dropWhile (· = '0')).reverse

end Decimal

end BuildGraph
