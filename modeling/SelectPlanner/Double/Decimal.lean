/-
Reading a double from decimal text.

The text is an optional sign and then either one of the words `inf`, `infinity` and `nan` in any
case, or digits with an optional point among, before or after them and an optional exponent.  The
double is the one nearest to the decimal, ties to the even significand; too large is infinite and
too small is zero.  Decimals beyond either end are settled by their order of magnitude, so that
an exponent of many digits costs nothing.
-/
import SelectPlanner.Numeral
import SelectPlanner.Double

namespace SelectPlanner.Double

/-- A decimal: `digits * 10 ^ exponent`. -/
structure Decimal where
  /-- All its digits as one whole number. -/
  digits : Nat
  /-- Where the point stands, counted from the last digit. -/
  exponent : Int

/-- The exponent that may follow the digits. -/
def exponent? : List Char → Option Int
  | [] => some 0
  | c :: cs => if c = 'e' ∨ c = 'E' then Numeral.integer? cs else none

/-- The digits after the point, if there is one, and what follows. -/
def fraction : List Char → List Char × List Char
  | '.' :: cs => (cs.takeWhile Char.isDigit, cs.dropWhile Char.isDigit)
  | cs => ([], cs)

/-- A decimal without a sign. -/
def Decimal.ofText? (cs : List Char) : Option Decimal :=
  let whole := cs.takeWhile Char.isDigit
  let (part, rest) := fraction (cs.dropWhile Char.isDigit)
  if whole ++ part = [] then none
  else (exponent? rest).map fun e =>
    ⟨Nat.ofDigitChars 10 (whole ++ part) 0, e - part.length⟩

/-- The magnitude of the double nearest to a decimal.  With a leading bit of weight `2 ^ b` and an
exponent `x`, the decimal is at least `2 ^ (b + 3 * x)` if `x` is positive and less than
`2 ^ (b + 1 + 3 * x)` if it is negative. -/
def Decimal.nearest (d : Decimal) : Nat :=
  if d.digits = 0 then 0
  else if 0 < d.exponent ∧ 1024 ≤ d.digits.log2 + 3 * d.exponent then infinite
  else if d.exponent < 0 ∧ d.digits.log2 + 1076 + 3 * d.exponent ≤ 0 then 0
  else Double.nearest (d.digits * (10 : Rat) ^ d.exponent)

/-- A double without a sign. -/
def magnitude? (cs : List Char) : Option Nat :=
  let word := String.ofList (cs.map Char.toLower)
  if word = "inf" ∨ word = "infinity" then some infinite
  else if word = "nan" then some nan.magnitude
  else (Decimal.ofText? cs).map Decimal.nearest

/-- Gives a magnitude its sign.  No number has none. -/
def signed (negative : Bool) (magnitude : Nat) : Double :=
  if infinite < magnitude then nan else ofMagnitude negative magnitude

/-- The double that a text denotes. -/
def ofText? : List Char → Option Double
  | '-' :: cs => (magnitude? cs).map (signed true)
  | '+' :: cs => (magnitude? cs).map (signed false)
  | cs => (magnitude? cs).map (signed false)

end SelectPlanner.Double
