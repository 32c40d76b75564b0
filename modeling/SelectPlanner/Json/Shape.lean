/-
The shapes in which values are written as JSON.

A record is an object with a member for each field.  A choice is an object with one member, named
for the alternative that was chosen; an alternative that carries nothing may be written as its name
alone.  Reading is generous where it cannot be wrong: a record may have further members in any
order, or be an array of its fields in order.  It is strict about the rest: no field twice, none
left out, no other length of the array, no second alternative.

Objects and arrays that a reader opens lie at most `deepest` deep in one another; whatever a
reader skips may be deeper.  Readers of nested shapes take the number that may still be opened.
-/
import SelectPlanner.Double
import SelectPlanner.Json

namespace SelectPlanner.Json

/-- How many objects and arrays may be opened, one inside the other. -/
def deepest : Nat := 127

/-! ### Plain values -/

/-- A string. -/
def string? : Json → Option String
  | string s => some s
  | _ => none

/-- A truth value. -/
def bool? : Json → Option Bool
  | bool b => some b
  | _ => none

/-- A whole number from -2^63 to 2^63 - 1. -/
def long? : Json → Option Int64
  | integer n =>
    if -0x8000000000000000 ≤ n ∧ n < 0x8000000000000000 then some (Int64.ofInt n) else none
  | _ => none

/-- A whole number from 0 to 2^64 - 1. -/
def size? : Json → Option UInt64
  | integer n => if 0 ≤ n ∧ n < 0x10000000000000000 then some (UInt64.ofNat n.toNat) else none
  | _ => none

/-- A double, or the double nearest to a whole number. -/
def double? : Json → Option Double
  | double d => some d
  | integer n => some (.ofMagnitude (n < 0) (Double.nearest n.natAbs))
  | _ => none

/-- A long as a value. -/
def ofLong (n : Int64) : Json := integer n.toInt

/-- A double as a value, null if it is not finite. -/
def ofDouble (d : Double) : Json := if d.isFinite then double d else null

/-! ### Records and choices -/

/-- The values of the members with this name. -/
def valuesOf (name : String) (members : List (String × Json)) : List Json :=
  (members.filter (·.1 == name)).map Prod.snd

/-- The values of the fields of a record, in the order of their names. -/
def fields? (names : List String) : Json → Option (List (Option Json))
  | object members =>
    let found := names.map (valuesOf · members)
    if found.all (·.length ≤ 1) then some (found.map List.head?) else none
  | array items => if items.length = names.length then some (items.map some) else none
  | _ => none

/-- A choice: the name of the alternative and what it carries. -/
def chosen? : Json → Option (String × Json)
  | object [(name, content)] => some (name, content)
  | _ => none

/-- A choice among alternatives that carry nothing, by their names. -/
def plainChoice? {α : Type} (alternatives : List (String × α)) (depth : Nat) :
    Json → Option α
  | string name => alternatives.lookup name
  | object [(name, null)] => if depth = 0 then none else alternatives.lookup name
  | _ => none

/-- The items of an array. -/
def items? : Json → Option (List Json)
  | array items => some items
  | _ => none

end SelectPlanner.Json
