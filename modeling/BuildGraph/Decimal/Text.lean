import BuildGraph.Decimal.Digits

/-!
# Texts of doubles

The two texts that numbers have in descriptions.  The plain text has the fewest digits that read
back and never an exponent.  The general text has at most fourteen significant digits, an exponent
where the number is very large or very small, and always shows that it is no whole number.
-/

namespace BuildGraph.Double

/-- Digits with a point `places` digits before their end. -/
def withPoint (digits : List Char) (places : Nat) : List Char :=
  let padded := List.replicate (places + 1 - digits.length) '0' ++ digits
  let whole := padded.take (padded.length - places)
  let fraction := padded.drop (padded.length - places)
  if fraction = [] then whole else whole ++ '.' :: fraction

/-- The sign of a negative number. -/
def signText (negative : Bool) : String := if negative then "-" else ""

/-! ## Plain text -/

/-- A decimal without an exponent. -/
def positional (d : Decimal) : List Char :=
  match d.exponent with
  | .ofNat k => Nat.toDigits 10 (d.digits * Nat.pow 10 k)
  | .negSucc k => withPoint (Nat.toDigits 10 d.digits) (k + 1)

/-- The fewest digits that read back, without an exponent. -/
def plainText : Double → String
  | .nan => "NaN"
  | .infinite negative => signText negative ++ "inf"
  | .finite negative m e =>
    signText negative ++ (if m = 0 then "0" else String.ofList (positional (Decimal.shortest m e)))

/-! ## General text -/

/-- Number of significant digits of the general text. -/
def generalDigits : Nat := 14

/-- The exponent of the general text, of at least two digits. -/
def exponentText (x : Int) : String :=
  let ds := Nat.toDigits 10 x.natAbs
  "e" ++ (if x < 0 then "-" else "+") ++ (if ds.length < 2 then "0" else "") ++ String.ofList ds

/-- Digits without the zeros that end their fraction, and without a point that nothing follows. -/
def trimFraction (ds : List Char) : List Char :=
  if ds.contains '.' then
    let trimmed := Decimal.trimZeros ds
    if trimmed.getLast? = some '.' then trimmed.dropLast else trimmed
  else ds

/-- A positive number in the general text. -/
def generalPositive (mantissa : Nat) (exponent : Int) : String :=
  let d := Decimal.nearest generalDigits mantissa exponent
  let ds := Nat.toDigits 10 d.digits
  let x : Int := d.exponent + generalDigits - 1
  if x < -4 ∨ generalDigits ≤ x then
    String.ofList (trimFraction (withPoint ds (generalDigits - 1))) ++ exponentText x
  else String.ofList (trimFraction (withPoint ds (-d.exponent).toNat))

/-- The text with `.0` if it would read as a whole number. -/
def markFraction (s : String) : String :=
  if s.toList.all fun c => c = '-' ∨ c.isDigit then s ++ ".0" else s

/-- At most fourteen significant digits, marked as no whole number. -/
def generalText : Double → String
  | .nan => "nan"
  | .infinite negative => signText negative ++ "inf"
  | .finite negative m e =>
    markFraction (signText negative ++ (if m = 0 then "0" else generalPositive m e))

example : (ofDecimal false 1 (-1)).plainText = "0.1" := by decide +kernel

example : (ofDecimal true 1 21).plainText = "-1000000000000000000000" := by decide +kernel

example : (ofDecimal false 1 100).generalText = "1e+100" := by decide +kernel

example : (ofDecimal false 10 (-1)).generalText = "1.0" := by decide +kernel

end BuildGraph.Double
