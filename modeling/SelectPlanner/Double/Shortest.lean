/-
Writing a double in the fewest digits that read back.

Around every double lies the interval of numbers that round to it, its ends included when the
significand is even.  For one digit, two digits and so on, the two decimals of that many digits
next to the double are tried; the first count with a hit wins, of two hits the nearer, and of two
as near the upper.  Seventeen digits always suffice.

Between 0.0001 and 10^16 the digits are written with a point and at least one digit on either side
of it; beyond, as one digit, a point if more follow, and an exponent without plus or padding.
-/
import SelectPlanner.Numeral
import SelectPlanner.Double

namespace SelectPlanner.Double

/-- The interval of numbers that round to a double. -/
structure Interval where
  /-- Its lower end. -/
  low : Rat
  /-- Its upper end. -/
  high : Rat
  /-- Whether its ends belong to it. -/
  closed : Bool

/-- Whether a number lies in the interval. -/
def Interval.holds (i : Interval) (x : Rat) : Bool :=
  if i.closed then i.low ≤ x ∧ x ≤ i.high else i.low < x ∧ x < i.high

/-- The numbers that round to a positive finite double.  Below a power of two the doubles lie
twice as dense, so the interval reaches only half as far there. -/
def interval (d : Double) : Interval :=
  let unit := (2 : Rat) ^ d.exponent
  let dense := d.magnitude % (1 <<< 52) = 0 ∧ 1 <<< 52 < d.magnitude
  ⟨d.abs - unit / (if dense then 4 else 2), d.abs + unit / 2, d.significand % 2 = 0⟩

/-- A decimal in scientific form: the point stands after the first digit. -/
structure Scientific where
  /-- The digits, the first of them not zero. -/
  digits : List Char
  /-- The power of ten of the first digit. -/
  exponent : Int

/-- The decimal `count * 10 ^ exponent` without the zeros at its end. -/
def Scientific.ofCount (count : Nat) (exponent : Int) : Scientific :=
  let digits := Numeral.digits count
  ⟨(digits.reverse.dropWhile (· == '0')).reverse, exponent + digits.length - 1⟩

/-- Of the two decimals of `n` digits next to `x` the one in the interval, if any is; `top` is the
power of ten of the first digit of `x`. -/
def ofDigitCount (i : Interval) (x : Rat) (top : Int) (n : Nat) : Option Scientific :=
  let exponent := top - n + 1
  let unit := (10 : Rat) ^ exponent
  let below := (x / unit).floor.toNat
  let hits := i.holds (below * unit)
  let hitsAbove := i.holds ((below + 1 : Nat) * unit)
  let nearer := x - below * unit < (below + 1 : Nat) * unit - x
  if hits && (nearer || !hitsAbove) then some (.ofCount below exponent)
  else if hitsAbove then some (.ofCount (below + 1) exponent)
  else none

/-- The most digits that are ever needed. -/
def mostDigits : Nat := 17

/-- The shortest decimal that rounds to a positive finite double. -/
def shortest (d : Double) : Scientific :=
  let top := floorLog 10 d.abs
  ((List.range mostDigits).findSome? fun n => ofDigitCount d.interval d.abs top (n + 1)).getD
    ⟨['0'], 0⟩

/-- The text of a decimal, positional in the middle range and scientific beyond. -/
def Scientific.render (s : Scientific) : List Char :=
  if 0 ≤ s.exponent ∧ s.exponent < 16 then
    let whole := s.exponent.toNat + 1
    let padded := s.digits ++ List.replicate (whole + 1 - s.digits.length) '0'
    padded.take whole ++ '.' :: padded.drop whole
  else if -4 ≤ s.exponent ∧ s.exponent < 0 then
    '0' :: '.' :: List.replicate (-s.exponent - 1).toNat '0' ++ s.digits
  else
    let point := if s.digits.length = 1 then [] else ['.']
    s.digits.take 1 ++ point ++ s.digits.drop 1 ++ 'e' :: (Numeral.renderInt s.exponent).toList

/-- The text of a double. -/
def render (d : Double) : String :=
  let sign := if d.isNegative then "-" else ""
  if infinite < d.magnitude then "NaN"
  else if d.magnitude = infinite then sign ++ "inf"
  else if d.magnitude = 0 then sign ++ "0.0"
  else sign ++ String.ofList d.shortest.render

end SelectPlanner.Double
