/-
From what was written to what plans are made of.

A name becomes a column, an operator text the operator that is written so.  Two things have no
counterpart: operators that plans lack, and a SELECT in the place of a value.  The complaint is
about the first of them, a tree before its parts and the left part before the right.
-/
import SelectPlanner.Ast
import SelectPlanner.Expr

namespace SelectPlanner

/-- The expression that a tree stands for. -/
def Ast.lower : Ast → Except Error Expr
  | identifier name => .ok (.column name)
  | string value => .ok (.string value)
  | long value => .ok (.long value)
  | double value => .ok (.double value)
  | binary left op right =>
    match Operator.ofSymbol? op with
    | none => .error (.unsupportedOperator op)
    | some op =>
      match left.lower with
      | .error e => .error e
      | .ok left => right.lower.map (.binary op left)
  | renamed expr name => expr.lower.map (.renamed · name)
  | select projection selection table =>
    .error (.unsupportedExpression (select projection selection table).render)

end SelectPlanner
