/-
Single values.

A column of a batch holds scalars, each of one of the four types or null; null belongs to every
type.
-/
import SelectPlanner.Schema
import SelectPlanner.Double.Shortest

namespace SelectPlanner

/-- A value in a column. -/
inductive Scalar where
  /-- No value. -/
  | null
  | boolean (value : Bool)
  | long (value : Int64)
  | double (value : Double)
  | string (value : String)
  deriving DecidableEq, Inhabited

namespace Scalar

/-- Whether it is no value. -/
def isNull : Scalar → Bool
  | null => true
  | _ => false

/-- The type of a value that is not null. -/
def dataType? : Scalar → Option DataType
  | null => none
  | boolean _ => some .boolean
  | long _ => some .long
  | double _ => some .double
  | string _ => some .string

/-- Whether a column of this type may hold it. -/
def fits (type : DataType) (s : Scalar) : Bool :=
  s.dataType?.all (· == type)

/-- How a message shows it: its type with the value in parentheses. -/
def render : Scalar → String
  | null => "Null"
  | boolean value => "Boolean(" ++ (if value then "true" else "false") ++ ")"
  | long value => "Int64(" ++ Numeral.renderInt value.toInt ++ ")"
  | double value => "Float64(" ++ value.render ++ ")"
  | string value => "Utf8(" ++ Text.quoted value ++ ")"

end Scalar

end SelectPlanner
