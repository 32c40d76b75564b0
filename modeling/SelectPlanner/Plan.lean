/-
Plans: trees of relational operators, each with the schema of the rows that it produces.

A plan grows from a scan by `select` and `filter`, which look up the columns of their expressions
in the schema of the plan that they grow from.  A plan can also be put together by hand, in which
case nothing is checked.
-/
import SelectPlanner.Expr

namespace SelectPlanner

/-- A tree of relational operators. -/
inductive Plan where
  /-- All rows of a table. -/
  | scan (table : String) (schema : Schema)
  /-- A row of expressions for each row of the input. -/
  | projection (input : Plan) (exprs : List Expr) (schema : Schema)
  /-- The rows of the input for which a condition holds. -/
  | selection (input : Plan) (predicate : Expr)
  deriving DecidableEq, Inhabited

namespace Plan

/-- The schema of the rows that a plan produces. -/
def schema : Plan → Schema
  | scan _ schema => schema
  | projection _ _ schema => schema
  | selection input _ => input.schema

/-- The plans right below the root. -/
def children : Plan → List Plan
  | scan .. => []
  | projection input .. | selection input _ => [input]

/-- All plans from the root down. -/
def nodes : Plan → List Plan
  | scan table schema => [scan table schema]
  | projection input exprs schema => projection input exprs schema :: input.nodes
  | selection input predicate => selection input predicate :: input.nodes

/-- What the root does. -/
def headline : Plan → String
  | scan table _ => "Scan: " ++ table
  | projection _ exprs _ => "Projection: " ++ ", ".intercalate (exprs.map Expr.render)
  | selection _ predicate => "Selection: " ++ predicate.render

/-- The nodes from the root down, a line each, every node two blanks further in than the one it is
the input of. -/
def explain (p : Plan) : String :=
  String.join (p.nodes.mapIdx fun depth node =>
    String.join (List.replicate depth "  ") ++ node.headline ++ "\n")

/-- The rows of `p`, each with the values of `exprs` in place of its own. -/
def select (p : Plan) (exprs : List Expr) : Except Error Plan :=
  (exprs.mapM (Expr.fieldIn p.schema)).map fun fields => projection p exprs ⟨fields⟩

/-- The rows of `p` for which `predicate` holds. -/
def filter (p : Plan) (predicate : Expr) : Except Error Plan :=
  (predicate.fieldIn p.schema).map fun _ => selection p predicate

end Plan

end SelectPlanner
