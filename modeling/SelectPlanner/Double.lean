/-
Floating point numbers of 64 bits.

A double is its bit pattern: a sign, 11 bits of exponent, 52 bits of fraction.  Only three things
are ever done with one: it is read from a text, written as a text, and compared for identity, so
two doubles are equal when their bits are, 0.0 and -0.0 differ, and there is one NaN.  Below the
sign bit the patterns are ordered as the magnitudes are, from zero over the finite numbers to
infinity; that order is what rounding works on.
-/

namespace SelectPlanner

/-- A floating point number of 64 bits, by its bit pattern. -/
structure Double where
  /-- Sign, exponent and fraction, from the highest bit down. -/
  bits : UInt64
  deriving DecidableEq, Inhabited

namespace Double

/-- The magnitude of infinity; smaller ones are finite and greater ones are no number. -/
def infinite : Nat := 0x7ff <<< 52

/-- The bits below the sign. -/
def magnitude (d : Double) : Nat := d.bits.toNat % (1 <<< 63)

/-- Whether the sign bit is set. -/
def isNegative (d : Double) : Bool := 1 <<< 63 ≤ d.bits.toNat

/-- The double with this sign and these bits below it. -/
def ofMagnitude (negative : Bool) (magnitude : Nat) : Double :=
  ⟨UInt64.ofNat (if negative then 1 <<< 63 + magnitude else magnitude)⟩

/-- The one value that is no number. -/
def nan : Double := ofMagnitude false (infinite + 1 <<< 51)

/-- Whether it is a number and not infinite. -/
def isFinite (d : Double) : Bool := d.magnitude < infinite

/-- The whole number that is scaled by `2 ^ exponent`. -/
def significand (d : Double) : Nat :=
  if d.magnitude < 1 <<< 52 then d.magnitude else d.magnitude % (1 <<< 52) + 1 <<< 52

/-- The power of two that scales the significand. -/
def exponent (d : Double) : Int :=
  max (d.magnitude / (1 <<< 52) : Nat) 1 - 1075

/-- The distance from zero of a finite double. -/
def abs (d : Double) : Rat :=
  d.significand * (2 : Rat) ^ d.exponent

/-! ### Rounding to the nearest double -/

/-- The exponent of the greatest power of `base` that is no more than `x`, for a positive `x`. -/
def floorLog (base : Nat) (x : Rat) : Int :=
  if 1 ≤ x then (Nat.toDigits base x.floor.toNat).length - 1
  else -((Nat.toDigits base (x.inv.ceil.toNat - 1)).length : Int)

/-- The nearest whole number to `x`, and of two as near the even one, for an `x` that is not
negative. -/
def roundHalfEven (x : Rat) : Nat :=
  let below := x.floor.toNat
  let excess := x - below
  if excess < 1 / 2 ∨ excess = 1 / 2 ∧ below % 2 = 0 then below else below + 1

/-- The magnitude of the double nearest to `x`, for an `x` that is not negative.  Significands have
at most 53 bits, and no exponent is below -1074.  Rounding up to a power of two carries from the
fraction into the exponent by itself; what comes out too large is infinite. -/
def nearest (x : Rat) : Nat :=
  if x = 0 then 0
  else
    let scale := max (floorLog 2 x - 52) (-1074)
    min infinite ((scale + 1074).toNat <<< 52 + roundHalfEven (x * (2 : Rat) ^ (-scale)))

end Double

end SelectPlanner
