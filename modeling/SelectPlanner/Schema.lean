/-
The types, fields and schemas that expressions resolve against.

A schema is an ordered list of named, typed fields.  Names may repeat; a name then denotes the
first field that bears it.
-/
import SelectPlanner.Error

namespace SelectPlanner

/-- The type of a column. -/
inductive DataType where
  /-- True or false. -/
  | boolean
  /-- A signed whole number of 64 bits. -/
  | long
  /-- A floating point number of 64 bits. -/
  | double
  /-- A text. -/
  | string
  deriving DecidableEq, Inhabited, Repr

/-- The name of a type. -/
def DataType.name : DataType → String
  | boolean => "Boolean"
  | long => "Int64"
  | double => "Float64"
  | string => "Utf8"

/-- A named, typed column of a schema. -/
structure Field where
  /-- What the column is called. -/
  name : String
  /-- What its values are. -/
  dataType : DataType
  deriving DecidableEq, Inhabited, Repr

/-- The fields of the rows that a relation produces, in order. -/
structure Schema where
  /-- The fields from left to right. -/
  fields : List Field
  deriving DecidableEq, Inhabited, Repr

namespace Schema

/-- The number of fields. -/
def size (s : Schema) : Nat := s.fields.length

/-- Whether there is no field. -/
def isEmpty (s : Schema) : Bool := s.fields.isEmpty

/-- The names of the fields in order. -/
def fieldNames (s : Schema) : List String := s.fields.map Field.name

/-- The first field with this name. -/
def field? (s : Schema) (name : String) : Option Field :=
  s.fields.find? (·.name == name)

/-- The place of the first field with this name. -/
def indexOf? (s : Schema) (name : String) : Option Nat :=
  s.fields.findIdx? (·.name == name)

/-- The first field with this name, or the complaint that there is none. -/
def resolve (s : Schema) (name : String) : Except Error Field :=
  match s.field? name with
  | some field => .ok field
  | none => .error (.unknownColumn name s.fieldNames)

/-! ### Looking up a name -/

theorem name_of_field? {s : Schema} {name : String} {field : Field}
    (h : s.field? name = some field) : field.name = name := by
  simpa using List.find?_some h

theorem field?_isSome {s : Schema} {name : String} :
    (s.field? name).isSome ↔ name ∈ s.fieldNames := by
  simp [field?, fieldNames, List.find?_isSome]

theorem field?_eq_none {s : Schema} {name : String} :
    s.field? name = none ↔ name ∉ s.fieldNames := by
  simp [← field?_isSome]

theorem resolve_eq_ok {s : Schema} {name : String} {field : Field} :
    s.resolve name = .ok field ↔ s.field? name = some field := by
  cases h : s.field? name <;> simp [resolve, h]

theorem resolve_eq_error {s : Schema} {name : String} {e : Error} :
    s.resolve name = .error e ↔
      name ∉ s.fieldNames ∧ e = .unknownColumn name s.fieldNames := by
  rw [← field?_eq_none]
  cases h : s.field? name <;> simp [resolve, h, eq_comm]

end Schema

end SelectPlanner
