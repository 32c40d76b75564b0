/-
Expressions of plans as JSON.
-/
import SelectPlanner.Expr
import SelectPlanner.Json.Shape

namespace SelectPlanner

/-- The name of a comparison. -/
def Comparison.name : Comparison → String
  | eq => "Eq"
  | neq => "Neq"
  | gt => "Gt"
  | gtEq => "GtEq"
  | lt => "Lt"
  | ltEq => "LtEq"

/-- The comparisons by their names. -/
def Comparison.names : List (String × Comparison) :=
  [eq, neq, gt, gtEq, lt, ltEq].map fun op => (op.name, op)

/-- A comparison as JSON. -/
def Comparison.toJson (op : Comparison) : Json := .string op.name

/-- The comparison that a JSON value is. -/
def Comparison.ofJson? : Nat → Json → Option Comparison := Json.plainChoice? names

/-- The name of a connective. -/
def Connective.name : Connective → String
  | and => "And"
  | or => "Or"

/-- The connectives by their names. -/
def Connective.names : List (String × Connective) :=
  [and, or].map fun op => (op.name, op)

/-- A connective as JSON. -/
def Connective.toJson (op : Connective) : Json := .string op.name

/-- The connective that a JSON value is. -/
def Connective.ofJson? : Nat → Json → Option Connective := Json.plainChoice? names

/-- The name of an arithmetic operator. -/
def Arithmetic.name : Arithmetic → String
  | mult => "Mult"

/-- The arithmetic operators by their names. -/
def Arithmetic.names : List (String × Arithmetic) := [mult].map fun op => (op.name, op)

/-- An arithmetic operator as JSON. -/
def Arithmetic.toJson (op : Arithmetic) : Json := .string op.name

/-- The arithmetic operator that a JSON value is. -/
def Arithmetic.ofJson? : Nat → Json → Option Arithmetic := Json.plainChoice? names

/-- What an operator is called as an alternative, and the operator itself as JSON. -/
def Operator.toJson : Operator → String × Json
  | comparison op => ("Comparison", op.toJson)
  | connective op => ("Boolean", op.toJson)
  | arithmetic op => ("Arithmetic", op.toJson)

/-- The operator of a named alternative that a JSON value is. -/
def Operator.ofJson? (alternative : String) (depth : Nat) (j : Json) : Option Operator :=
  match alternative with
  | "Comparison" => (Comparison.ofJson? depth j).map comparison
  | "Boolean" => (Connective.ofJson? depth j).map connective
  | "Arithmetic" => (Arithmetic.ofJson? depth j).map arithmetic
  | _ => none

namespace Expr

/-- An expression as JSON. -/
def toJson : Expr → Json
  | column name => .object [("Column", .string name)]
  | renamed expr name =>
    .object [("Alias", .object [("expr", expr.toJson), ("name", .string name)])]
  | string value => .object [("LiteralString", .string value)]
  | long value => .object [("LiteralLong", .ofLong value)]
  | double value => .object [("LiteralDouble", .ofDouble value)]
  | binary op left right =>
    .object [(op.toJson.1,
      .object [("op", op.toJson.2), ("left", left.toJson), ("right", right.toJson)])]

mutual

/-- The expression that a JSON value is. -/
def ofJson? : Nat → Json → Option Expr
  | 0, _ => none
  | depth + 1, j =>
    match j.chosen? with
    | some ("Column", content) => content.string?.map .column
    | some ("Alias", content) => renamedOfJson? depth content
    | some ("LiteralString", content) => content.string?.map .string
    | some ("LiteralLong", content) => content.long?.map .long
    | some ("LiteralDouble", content) => content.double?.map .double
    | some (alternative, content) => binaryOfJson? alternative depth content
    | none => none

/-- The renaming that a JSON record is. -/
def renamedOfJson? : Nat → Json → Option Expr
  | 0, _ => none
  | depth + 1, j =>
    match j.fields? ["expr", "name"] with
    | some [some expr, some name] => do
      let expr ← ofJson? depth expr
      let name ← name.string?
      some (.renamed expr name)
    | _ => none

/-- The operation of a named alternative that a JSON record is. -/
def binaryOfJson? (alternative : String) : Nat → Json → Option Expr
  | 0, _ => none
  | depth + 1, j =>
    match j.fields? ["op", "left", "right"] with
    | some [some op, some left, some right] => do
      let op ← Operator.ofJson? alternative depth op
      let left ← ofJson? depth left
      let right ← ofJson? depth right
      some (.binary op left right)
    | _ => none

end

end Expr

end SelectPlanner
