/-
The value of a JSON number.

Without point and exponent a number is a whole number, if it has one of at most 64 bits; minus
zero has none.  Every other number is a double, found by scaling rather than by exact rounding:
digits are gathered into a whole number of 64 bits until the next one would not fit, the gathered
number is rounded to a double, and that is multiplied or divided by the double nearest to a power
of ten.  Digits of the whole part that were not gathered count as tenfold scale, digits of the
fraction that were not gathered count for nothing.  A number whose double would be infinite has
no value.
-/
import SelectPlanner.Double
import SelectPlanner.Json

namespace SelectPlanner.Json

/-- Gathers digits behind those in `sofar` as long as the whole fits into 64 bits; gives the result
and the number of digits that were not gathered. -/
def gather (sofar : Nat) : List Char → Nat × Nat
  | [] => (sofar, 0)
  | c :: cs =>
    let next := 10 * sofar + (c.toNat - '0'.toNat)
    if next < 0x10000000000000000 then gather next cs else (sofar, cs.length + 1)

/-- The distance from zero of the finite double with this magnitude. -/
def magnitudeValue (m : Nat) : Rat := (Double.ofMagnitude false m).abs

/-- The double nearest to a power of ten of at most 308. -/
def powerOfTen (n : Nat) : Rat := magnitudeValue (Double.nearest ((10 : Rat) ^ n))

/-- The magnitude of a double scaled by a power of ten, rounded after every step, each of which
scales by at most 308 powers.  There is none if it would be infinite. -/
def scale (m : Nat) (exponent : Int) : Option Nat :=
  if -308 ≤ exponent ∧ exponent ≤ 308 then
    let scaled :=
      if 0 ≤ exponent then Double.nearest (magnitudeValue m * powerOfTen exponent.toNat)
      else Double.nearest (magnitudeValue m / powerOfTen (-exponent).toNat)
    if scaled = Double.infinite then none else some scaled
  else if m = 0 then some 0
  else if 0 ≤ exponent then none
  else scale (Double.nearest (magnitudeValue m / powerOfTen 308)) (exponent + 308)
termination_by (-exponent).toNat

/-- A number by its parts, as they are written. -/
structure NumberText where
  /-- Whether there is a minus. -/
  negative : Bool
  /-- The digits before the point. -/
  whole : List Char
  /-- The digits after the point. -/
  fraction : Option (List Char)
  /-- The exponent. -/
  exponent : Option Int

/-- A double as a value. -/
def ofMagnitude? (negative : Bool) : Option Nat → Json
  | some m => .double (.ofMagnitude negative m)
  | none => .unreadable

/-- A gathered number that is to be scaled, as a value.  An exponent of more than 31 bits is
settled by its sign alone. -/
def scaled (negative : Bool) (gathered : Nat) (shift : Int) (exponent : Option Int) : Json :=
  let power := exponent.getD 0
  if power.natAbs < 0x80000000 then
    ofMagnitude? negative (scale (Double.nearest gathered) (shift + power))
  else if gathered ≠ 0 ∧ 0 < power then .unreadable
  else .double (.ofMagnitude negative 0)

/-- The value of a number. -/
def NumberText.value (n : NumberText) : Json :=
  let (sofar, left) := gather 0 n.whole
  match n.fraction, n.exponent with
  | none, none =>
    if left ≠ 0 then scaled n.negative sofar left none
    else if !n.negative then .integer sofar
    else if sofar = 0 ∨ 0x8000000000000000 < sofar then
      .double (.ofMagnitude true (Double.nearest sofar))
    else .integer (-sofar)
  | fraction, exponent =>
    let digits := fraction.getD []
    let (gathered, dropped) := gather sofar digits
    scaled n.negative gathered (left - (digits.length - dropped : Nat)) exponent

end SelectPlanner.Json
