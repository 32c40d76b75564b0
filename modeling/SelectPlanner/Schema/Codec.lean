/-
Types, fields, schemas and scalars as JSON.
-/
import SelectPlanner.Json.Shape
import SelectPlanner.Scalar

namespace SelectPlanner

/-- The types by their names. -/
def DataType.names : List (String × DataType) :=
  [boolean, long, double, string].map fun type => (type.name, type)

/-- A type as JSON. -/
def DataType.toJson (type : DataType) : Json := .string type.name

/-- The type that a JSON value is. -/
def DataType.ofJson? : Nat → Json → Option DataType := Json.plainChoice? names

/-- A field as JSON. -/
def Field.toJson (f : Field) : Json :=
  .object [("name", .string f.name), ("data_type", f.dataType.toJson)]

/-- The field that a JSON value is. -/
def Field.ofJson? : Nat → Json → Option Field
  | 0, _ => none
  | depth + 1, j =>
    match j.fields? ["name", "data_type"] with
    | some [some name, some type] => do
      some ⟨← name.string?, ← DataType.ofJson? depth type⟩
    | _ => none

/-- A schema as JSON. -/
def Schema.toJson (s : Schema) : Json :=
  .object [("fields", .array (s.fields.map Field.toJson))]

/-- The schema that a JSON value is. -/
def Schema.ofJson? : Nat → Json → Option Schema
  | depth + 2, j =>
    match j.fields? ["fields"] with
    | some [some (.array items)] => (items.mapM (Field.ofJson? depth)).map Schema.mk
    | _ => none
  | _, _ => none

/-- A scalar as JSON. -/
def Scalar.toJson : Scalar → Json
  | null => .string "Null"
  | boolean value => .object [("Boolean", .bool value)]
  | long value => .object [("Int64", .ofLong value)]
  | double value => .object [("Float64", .ofDouble value)]
  | string value => .object [("Utf8", .string value)]

/-- The scalar that a JSON value is. -/
def Scalar.ofJson? : Nat → Json → Option Scalar
  | _, .string name => if name = "Null" then some null else none
  | 0, _ => none
  | _ + 1, j =>
    match j.chosen? with
    | some ("Null", .null) => some null
    | some ("Boolean", content) => content.bool?.map boolean
    | some ("Int64", content) => content.long?.map long
    | some ("Float64", content) => content.double?.map double
    | some ("Utf8", content) => content.string?.map string
    | _ => none

end SelectPlanner
