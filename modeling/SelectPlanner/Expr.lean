/-
The expressions of plans.

An expression can say which field it would produce for rows of a given schema, without being
evaluated.  A column produces the field that it names, a renaming the type of what it renames, a
literal its own type, a comparison or connective a boolean, and an arithmetic operator the type of
its left operand.  Every column must be a field of the schema; the first from left to right that is
none is the complaint.
-/
import SelectPlanner.Schema
import SelectPlanner.Double.Shortest
import Std.Data.TreeSet

namespace SelectPlanner

/-- Operators that compare two values. -/
inductive Comparison where
  | eq
  | neq
  | gt
  | gtEq
  | lt
  | ltEq
  deriving DecidableEq, Inhabited, Repr

/-- Operators that join two truth values. -/
inductive Connective where
  | and
  | or
  deriving DecidableEq, Inhabited, Repr

/-- Operators that compute. -/
inductive Arithmetic where
  | mult
  deriving DecidableEq, Inhabited, Repr

/-- How a comparison is written. -/
def Comparison.symbol : Comparison → String
  | eq => "="
  | neq => "!="
  | gt => ">"
  | gtEq => ">="
  | lt => "<"
  | ltEq => "<="

/-- How a connective is written. -/
def Connective.symbol : Connective → String
  | and => "AND"
  | or => "OR"

/-- How an arithmetic operator is written. -/
def Arithmetic.symbol : Arithmetic → String
  | mult => "*"

/-- The comparison that is written so. -/
def Comparison.ofSymbol? : String → Option Comparison
  | "=" => some eq
  | "!=" => some neq
  | ">" => some gt
  | ">=" => some gtEq
  | "<" => some lt
  | "<=" => some ltEq
  | _ => none

/-- The connective that is written so. -/
def Connective.ofSymbol? : String → Option Connective
  | "AND" => some and
  | "OR" => some or
  | _ => none

/-- The arithmetic operator that is written so. -/
def Arithmetic.ofSymbol? : String → Option Arithmetic
  | "*" => some mult
  | _ => none

section
variable {text : String}

/-- A text is read as the comparison that is written so, and as no other. -/
theorem Comparison.ofSymbol?_eq_some {op : Comparison} :
    ofSymbol? text = some op ↔ op.symbol = text := by
  constructor
  · intro h
    unfold ofSymbol? at h
    split at h <;> cases h <;> rfl
  · rintro rfl
    cases op <;> rfl

theorem Connective.ofSymbol?_eq_some {op : Connective} :
    ofSymbol? text = some op ↔ op.symbol = text := by
  constructor
  · intro h
    unfold ofSymbol? at h
    split at h <;> cases h <;> rfl
  · rintro rfl
    cases op <;> rfl

theorem Arithmetic.ofSymbol?_eq_some {op : Arithmetic} :
    ofSymbol? text = some op ↔ op.symbol = text := by
  constructor
  · intro h
    unfold ofSymbol? at h
    split at h
    · cases h
      rfl
    · cases h
  · rintro rfl
    cases op
    rfl

end

/-- The operators of plans. -/
inductive Operator where
  | comparison (op : Comparison)
  | connective (op : Connective)
  | arithmetic (op : Arithmetic)
  deriving DecidableEq, Inhabited, Repr

namespace Operator

/-- How an operator is written. -/
def symbol : Operator → String
  | comparison op => op.symbol
  | connective op => op.symbol
  | arithmetic op => op.symbol

/-- The operator that is written so. -/
def ofSymbol? (symbol : String) : Option Operator :=
  (Comparison.ofSymbol? symbol).map comparison <|>
    (Connective.ofSymbol? symbol).map connective <|>
    (Arithmetic.ofSymbol? symbol).map arithmetic

/-- The type of the result for a left operand of this type. -/
def resultType (left : DataType) : Operator → DataType
  | comparison _ | connective _ => .boolean
  | arithmetic _ => left

/-- No two operators are written alike. -/
theorem ofSymbol?_symbol (op : Operator) : ofSymbol? op.symbol = some op := by
  rcases op with op | op | op <;> cases op <;> decide

theorem symbol_of_ofSymbol? {text : String} {op : Operator} (h : ofSymbol? text = some op) :
    op.symbol = text := by
  simp only [ofSymbol?, Option.orElse_eq_orElse, Option.orElse_eq_or, Option.or_eq_some_iff,
    Option.map_eq_some_iff] at h
  rcases h with ⟨o, ho, rfl⟩ | ⟨-, ⟨o, ho, rfl⟩ | ⟨-, o, ho, rfl⟩⟩
  · exact Comparison.ofSymbol?_eq_some.mp ho
  · exact Connective.ofSymbol?_eq_some.mp ho
  · exact Arithmetic.ofSymbol?_eq_some.mp ho

end Operator

/-- An expression over the columns of rows. -/
inductive Expr where
  /-- The value of the first column with this name. -/
  | column (name : String)
  /-- The same value under another name. -/
  | renamed (expr : Expr) (name : String)
  | string (value : String)
  | long (value : Int64)
  | double (value : Double)
  | binary (op : Operator) (left right : Expr)
  deriving DecidableEq, Inhabited

namespace Expr

/-- The name of the field that an expression produces. -/
def outputName : Expr → String
  | column name | renamed _ name => name
  | string value => value
  | long value => Numeral.renderInt value.toInt
  | double value => value.render
  | binary op left right => left.outputName ++ " " ++ op.symbol ++ " " ++ right.outputName

/-- An expression as text. -/
def render : Expr → String
  | column name => "#" ++ name
  | renamed expr name => expr.render ++ " AS " ++ name
  | string value => "'" ++ value ++ "'"
  | long value => Numeral.renderInt value.toInt
  | double value => value.render
  | binary op left right => left.render ++ " " ++ op.symbol ++ " " ++ right.render

/-- The columns that an expression mentions, from left to right. -/
def columns : Expr → List String
  | column name => [name]
  | renamed expr _ => expr.columns
  | string _ | long _ | double _ => []
  | binary _ left right => left.columns ++ right.columns

/-- The columns that an expression mentions, each once, in the order of their code points. -/
def references (e : Expr) : List String :=
  (Std.TreeSet.ofList e.columns).toList

/-- The type of the values of an expression over rows of a schema. -/
def typeIn (s : Schema) : Expr → Except Error DataType
  | column name => (s.resolve name).map Field.dataType
  | renamed expr _ => expr.typeIn s
  | string _ => .ok .string
  | long _ => .ok .long
  | double _ => .ok .double
  | binary op left right =>
    match left.typeIn s with
    | .error e => .error e
    | .ok type => (right.typeIn s).map fun _ => op.resultType type

/-- The field that an expression produces over rows of a schema. -/
def fieldIn (s : Schema) (e : Expr) : Except Error Field :=
  (e.typeIn s).map fun type => ⟨e.outputName, type⟩

/-! ### Building expressions -/

/-- Compares with another expression. -/
def compare (op : Comparison) (left right : Expr) : Expr := binary (.comparison op) left right

/-- Joins with another expression. -/
def join (op : Connective) (left right : Expr) : Expr := binary (.connective op) left right

/-- Computes with another expression. -/
def compute (op : Arithmetic) (left right : Expr) : Expr := binary (.arithmetic op) left right

/-- Equality. -/
def eq : Expr → Expr → Expr := compare .eq

/-- Inequality. -/
def neq : Expr → Expr → Expr := compare .neq

/-- Greater than. -/
def gt : Expr → Expr → Expr := compare .gt

/-- Greater than or equal to. -/
def gtEq : Expr → Expr → Expr := compare .gtEq

/-- Less than. -/
def lt : Expr → Expr → Expr := compare .lt

/-- Less than or equal to. -/
def ltEq : Expr → Expr → Expr := compare .ltEq

/-- Both hold. -/
def and : Expr → Expr → Expr := join .and

/-- At least one holds. -/
def or : Expr → Expr → Expr := join .or

/-- The product. -/
def mult : Expr → Expr → Expr := compute .mult

end Expr

end SelectPlanner
