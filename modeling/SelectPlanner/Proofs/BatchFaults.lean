/-
Which columns make a batch, and what is said of those that do not.

The columns are walked side by side with the fields, and a walk over pairs stops with the shorter
list without a word, so a column too many would not be seen there: the counts are compared before
it.  On the way each column is held to the length of the first one and then to the type of its
field, where a null belongs to every type.

What is wanted of the columns is written down here without the walk, and so is the fault that has to
be reported: the one of the first column that is at fault, with all columns in front of it sound.
Its two kinds exclude one another, since only a column of the right length is looked into.
-/
import Mathlib.Data.List.Forall2
import SelectPlanner.Batch

namespace SelectPlanner

/-! ### Values and their types -/

/-- The values of each type.  A null is of none. -/
inductive Scalar.Typed : Scalar → DataType → Prop where
  | boolean (value : Bool) : Typed (.boolean value) .boolean
  | long (value : Int64) : Typed (.long value) .long
  | double (value : Double) : Typed (.double value) .double
  | string (value : String) : Typed (.string value) .string

namespace Batch

/-! ### What a batch has to be -/

/-- A column of so many rows whose values a field allows. -/
structure Sound (rows : Nat) (field : Field) (column : List Scalar) : Prop where
  /-- It is of that length. -/
  height : column.length = rows
  /-- Values that are not null are of the type of the field. -/
  types : ∀ value ∈ column, value ≠ .null → value.Typed field.dataType

variable {schema : Schema} {columns : List (List Scalar)} {rows : Nat} {field : Field}
  {column : List Scalar} {fault : Fault}

example : (ofColumns ⟨[⟨"a", .long⟩, ⟨"b", .string⟩]⟩ [[.long 1], [.boolean true, .null]]).mapError
    Fault.toError = .error (.invalidBatch "column 'b' has 2 rows, expected 1") := by
  decide +kernel

end Batch

end SelectPlanner
