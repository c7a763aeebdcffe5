/-!
# Doubles

The numbers of binary64 as exact values: a mantissa below `2 ^ 53` times a power of two, the
infinities, and one value that is no number.  A decimal text denotes the double nearest to it,
and of two equally near the one with the even mantissa; all of it is computed in whole numbers.
-/

namespace BuildGraph

/-- A number of binary64. -/
inductive Double where
  | nan
  | infinite (negative : Bool)
  /-- `mantissa * 2 ^ exponent`; the mantissa has 53 bits unless the exponent is least. -/
  | finite (negative : Bool) (mantissa : Nat) (exponent : Int)
  deriving DecidableEq, Repr, Inhabited

namespace Double

/-! ## Rounding -/

/-- The whole number nearest to a quotient, of two equally near the even one. -/
def roundDiv (num den : Nat) : Nat :=
  let q := num / den
  let r := num % den
  if 2 * r < den then q
  else if den < 2 * r then q + 1
  else if q % 2 = 0 then q else q + 1

/-- Numerator and denominator of `num / den * 2 ^ (-e)`. -/
def scaleDown (num den : Nat) (e : Int) : Nat × Nat :=
  match e with
  | .ofNat k => (num, den * Nat.pow 2 k)
  | .negSucc k => (num * Nat.pow 2 (k + 1), den)

/-- Number of bits of a mantissa. -/
def precision : Nat := 53

/-- The least exponent of a double. -/
def minExponent : Int := -1074

/-- The greatest exponent of a double. -/
def maxExponent : Int := 971

/-- The exponent with which a positive quotient has a mantissa of 53 bits, or the least one. -/
def exponentOf (num den : Nat) : Int :=
  let guess := max ((num.log2 : Int) - den.log2 - precision) minExponent
  let scaled := scaleDown num den guess
  if Nat.pow 2 precision ≤ scaled.1 / scaled.2 then guess + 1 else guess

/-- The double nearest to a quotient. -/
def ofQuotient (negative : Bool) (num den : Nat) : Double :=
  if num = 0 then .finite negative 0 minExponent
  else
    let e := exponentOf num den
    let scaled := scaleDown num den e
    let m := roundDiv scaled.1 scaled.2
    let (m, e) := if m = Nat.pow 2 precision then (Nat.pow 2 (precision - 1), e + 1) else (m, e)
    if maxExponent < e then .infinite negative else .finite negative m e

/-- The double nearest to `digits * 10 ^ exponent`.  Far outside the range of doubles the number
of digits decides, so that no large power is formed. -/
def ofDecimal (negative : Bool) (digits : Nat) (exponent : Int) : Double :=
  let magnitude : Int := (Nat.toDigits 10 digits).length + exponent
  if digits = 0 ∨ magnitude < -400 then .finite negative 0 minExponent
  else if 400 < magnitude then .infinite negative
  else match exponent with
    | .ofNat e => ofQuotient negative (digits * Nat.pow 10 e) 1
    | .negSucc e => ofQuotient negative digits (Nat.pow 10 (e + 1))

/-! ## Whole numbers -/

/-- Numerator and denominator of `mantissa * 2 ^ exponent`. -/
def quotient (mantissa : Nat) (exponent : Int) : Nat × Nat :=
  match exponent with
  | .ofNat k => (mantissa * Nat.pow 2 k, 1)
  | .negSucc k => (mantissa, Nat.pow 2 (k + 1))

/-- The whole number that a double is, if it is one. -/
def toInt? : Double → Option Int
  | .finite negative m e =>
    let q := quotient m e
    if q.1 % q.2 = 0 then
      some (if negative then -((q.1 / q.2 : Nat) : Int) else (q.1 / q.2 : Nat))
    else none
  | _ => none

/-- The same number with the other sign. -/
def neg : Double → Double
  | .nan => .nan
  | .infinite negative => .infinite !negative
  | .finite negative m e => .finite (!negative) m e

example : ofDecimal false 1 0 = .finite false (2 ^ 52) (-52) := by decide +kernel

example : ofDecimal false 17976931348623159 292 = .infinite false := by decide +kernel

example : ofDecimal false 5 (-324) = .finite false 1 (-1074) := by decide +kernel

end Double

end BuildGraph
