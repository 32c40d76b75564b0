/-
Batches of rows, stored column by column, and what running a plan yields.

A batch is accepted when it has a column for each field, all columns are of the length of the
first, and every value fits its field.  Columns are looked at from left to right and a wrong
length is found before a wrong value, so the fault that is reported is the first one.

A plan that runs either fails to start or gives batches one at a time, any of which may fail.
Collecting them stops at the first failure and asks for nothing beyond it.
-/
import SelectPlanner.Scalar

namespace SelectPlanner

namespace Batch

/-- Why columns do not make a batch. -/
inductive Fault where
  /-- There are more or fewer columns than fields. -/
  | columnCount (fields columns : Nat)
  /-- A column is longer or shorter than the first. -/
  | rowCount (column : String) (rows expected : Nat)
  /-- A column holds a value of another type. -/
  | valueType (column : String) (expected : DataType) (value : Scalar)
  deriving DecidableEq

/-- The words for a fault. -/
def Fault.message : Fault → String
  | columnCount fields columns =>
    "schema has " ++ Numeral.render fields ++ " fields but " ++ Numeral.render columns ++
      " columns were supplied"
  | rowCount column rows expected =>
    "column '" ++ column ++ "' has " ++ Numeral.render rows ++ " rows, expected " ++
      Numeral.render expected
  | valueType column expected value =>
    "column '" ++ column ++ "' of type " ++ expected.name ++ " holds " ++ value.render

/-- The number of rows of these columns: the length of the first. -/
def rowsOf (columns : List (List Scalar)) : Nat :=
  columns.head?.elim 0 List.length

/-- What is wrong with a column of a batch of so many rows. -/
def columnFault? (rows : Nat) (field : Field) (column : List Scalar) : Option Fault :=
  if column.length ≠ rows then some (.rowCount field.name column.length rows)
  else (column.find? (!·.fits field.dataType)).map (.valueType field.name field.dataType)

/-- The first thing that is wrong with these columns. -/
def fault? (schema : Schema) (columns : List (List Scalar)) : Option Fault :=
  if schema.size ≠ columns.length then some (.columnCount schema.size columns.length)
  else (schema.fields.zip columns).findSome? fun (field, column) =>
    columnFault? (rowsOf columns) field column

/-! ### Columns that make a batch -/

/-- What the columns of a batch have to be. -/
structure Consistent (schema : Schema) (columns : List (List Scalar)) : Prop where
  /-- There is a column for each field. -/
  width : columns.length = schema.size
  /-- All columns are as long as the first. -/
  height : ∀ column ∈ columns, column.length = rowsOf columns
  /-- Every value fits the field of its column. -/
  fits : ∀ pair ∈ schema.fields.zip columns, ∀ value ∈ pair.2, value.fits pair.1.dataType

theorem columnFault?_eq_none {rows : Nat} {field : Field} {column : List Scalar} :
    columnFault? rows field column = none ↔
      column.length = rows ∧ ∀ value ∈ column, value.fits field.dataType := by
  unfold columnFault?
  by_cases h : column.length = rows <;> simp [h]

/-- Every column stands beside a field when there are as many. -/
theorem exists_field_of_mem {schema : Schema} {columns : List (List Scalar)} {column : List Scalar}
    (width : columns.length = schema.size) (h : column ∈ columns) :
    ∃ field, (field, column) ∈ schema.fields.zip columns := by
  obtain ⟨i, hi, rfl⟩ := List.getElem_of_mem h
  have hi' : i < schema.fields.length := by
    rw [Schema.size] at width
    omega
  have both : i < (schema.fields.zip columns).length := by
    rw [List.length_zip]
    omega
  exact ⟨schema.fields[i], List.getElem_zip (h := both) ▸ List.getElem_mem both⟩

theorem fault?_eq_none {schema : Schema} {columns : List (List Scalar)} :
    fault? schema columns = none ↔ Consistent schema columns := by
  unfold fault?
  by_cases width : schema.size = columns.length
  · simp only [width, ne_eq, not_true, if_false, List.findSome?_eq_none_iff, columnFault?_eq_none]
    constructor
    · intro h
      refine ⟨width.symm, fun column hc => ?_, fun pair hp => (h pair hp).2⟩
      obtain ⟨field, hf⟩ := exists_field_of_mem width.symm hc
      exact (h _ hf).1
    · intro h pair hp
      exact ⟨h.height _ (List.of_mem_zip hp).2, h.fits pair hp⟩
  · simp only [width, ne_eq, not_false_eq_true, if_true, reduceCtorEq, false_iff]
    exact fun h => width h.width.symm

end Batch

/-- Rows that share a schema, as one list of values for each field. -/
structure Batch where
  /-- The fields. -/
  schema : Schema
  /-- The values of each field from the first row to the last. -/
  columns : List (List Scalar)
  /-- The columns fit the schema and one another. -/
  consistent : Batch.Consistent schema columns
  deriving DecidableEq

namespace Batch

/-- The batch of these columns. -/
def ofColumns (schema : Schema) (columns : List (List Scalar)) : Except Fault Batch :=
  match h : fault? schema columns with
  | some fault => .error fault
  | none => .ok ⟨schema, columns, fault?_eq_none.mp h⟩

/-- A fault as an error. -/
def Fault.toError (fault : Fault) : Error := .invalidBatch fault.message

/-- The number of rows. -/
def rowCount (b : Batch) : Nat := rowsOf b.columns

/-- The number of columns. -/
def columnCount (b : Batch) : Nat := b.columns.length

/-- The values of the column at this place. -/
def column? (b : Batch) (index : Nat) : Option (List Scalar) := b.columns[index]?

end Batch

/-- What running a plan yields: a failure to start, or batches and failures in order. -/
abbrev Execution := Except Error (List (Except Error Batch))

/-- The outcome of collecting what a plan yields. -/
structure Collected where
  /-- All batches, or the first failure. -/
  result : Except Error (List Batch)
  /-- How many items were asked for. -/
  pulled : Nat

namespace Execution

/-- Asks for items until one fails or none is left. -/
def pullAll : List (Except Error Batch) → Collected
  | [] => ⟨.ok [], 0⟩
  | .error e :: _ => ⟨.error e, 1⟩
  | .ok batch :: items =>
    let later := pullAll items
    ⟨later.result.map (batch :: ·), later.pulled + 1⟩

/-- All batches that a plan yields, or its first failure. -/
def collect : Execution → Collected
  | .error e => ⟨.error e, 0⟩
  | .ok items => pullAll items

end Execution

end SelectPlanner
