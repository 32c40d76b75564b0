/-
The plan of a query over registered tables.

Without a condition the plan is a projection of the table.  With one, the rows are projected first
and then selected, so the condition sees the output names of the SELECT list; the columns that it
needs beyond them are carried through the selection by a wider projection and dropped again by a
last one, which makes the output exactly the SELECT list.
-/
import SelectPlanner.Ast.Lowering
import SelectPlanner.Plan
import Std.Data.ExtTreeMap

namespace SelectPlanner

/-- The plans that are registered, by name. -/
abbrev Tables := Std.ExtTreeMap String Plan

/-- The plan that is registered under this name. -/
def Tables.find (tables : Tables) (name : String) : Except Error Plan :=
  match tables[name]? with
  | some plan => .ok plan
  | none => .error (.unknownTable name)

/-- The columns of a condition that are none of these names, each once, in the order of their code
points. -/
def Expr.carried (condition : Expr) (names : List String) : List String :=
  condition.references.filter (!names.contains ·)

/-- The plan of a SELECT list with a condition, over a source. -/
def Plan.query (source : Plan) (items : List Expr) (condition : Expr) : Except Error Plan := do
  let fields ← items.mapM (Expr.fieldIn source.schema)
  let names := fields.map Field.name
  match condition.carried names with
  | [] => (← source.select items).filter condition
  | carried =>
    let wide ← source.select (items ++ carried.map .column)
    (← wide.filter condition).select (names.map .column)

/-- The plan of a query. -/
def Select.plan (s : Select) (tables : Tables) : Except Error Plan := do
  let source ← tables.find s.table
  let items ← s.projection.mapM Ast.lower
  match s.selection with
  | none => source.select items
  | some condition => source.query items (← condition.lower)

end SelectPlanner
