/-
Syntax trees as JSON.

A tree is a choice, named for what it is; what has parts is a record of them.  The condition of a
SELECT is null where there is none, and may be left out then.
-/
import SelectPlanner.Ast
import SelectPlanner.Json.Shape

namespace SelectPlanner

mutual

/-- A tree as JSON. -/
def Ast.toJson : Ast → Json
  | .identifier name => .object [("Identifier", .string name)]
  | .binary left op right =>
    .object [("BinaryExpr",
      .object [("left", left.toJson), ("op", .string op), ("right", right.toJson)])]
  | .string value => .object [("LiteralString", .string value)]
  | .long value => .object [("LiteralLong", .ofLong value)]
  | .double value => .object [("LiteralDouble", .ofDouble value)]
  | .renamed expr name =>
    .object [("Alias", .object [("expr", expr.toJson), ("alias", .string name)])]
  | .select projection none table =>
    .object [("Select",
      .object [("projection", .array (Ast.toJsonItems projection)), ("selection", .null),
        ("table_name", .string table)])]
  | .select projection (some condition) table =>
    .object [("Select",
      .object [("projection", .array (Ast.toJsonItems projection)),
        ("selection", condition.toJson), ("table_name", .string table)])]

/-- Trees as JSON. -/
def Ast.toJsonItems : List Ast → List Json
  | [] => []
  | e :: es => e.toJson :: Ast.toJsonItems es

end

/-- A statement as JSON. -/
def Select.toJson (s : Select) : Json :=
  .object [("projection", .array (Ast.toJsonItems s.projection)),
    ("selection", s.selection.elim .null Ast.toJson), ("table_name", .string s.table)]

mutual

/-- The tree that a JSON value is. -/
def Ast.ofJson? : Nat → Json → Option Ast
  | 0, _ => none
  | depth + 1, j =>
    match j.chosen? with
    | some ("Identifier", content) => content.string?.map .identifier
    | some ("BinaryExpr", content) => Ast.binaryOfJson? depth content
    | some ("LiteralString", content) => content.string?.map .string
    | some ("LiteralLong", content) => content.long?.map .long
    | some ("LiteralDouble", content) => content.double?.map .double
    | some ("Alias", content) => Ast.renamedOfJson? depth content
    | some ("Select", content) => (Select.ofJson? depth content).map Select.toAst
    | _ => none

/-- The operation that a JSON record is. -/
def Ast.binaryOfJson? : Nat → Json → Option Ast
  | 0, _ => none
  | depth + 1, j =>
    match j.fields? ["left", "op", "right"] with
    | some [some left, some op, some right] => do
      let left ← Ast.ofJson? depth left
      let op ← op.string?
      let right ← Ast.ofJson? depth right
      some (.binary left op right)
    | _ => none

/-- The renaming that a JSON record is. -/
def Ast.renamedOfJson? : Nat → Json → Option Ast
  | 0, _ => none
  | depth + 1, j =>
    match j.fields? ["expr", "alias"] with
    | some [some expr, some name] => do
      let expr ← Ast.ofJson? depth expr
      let name ← name.string?
      some (.renamed expr name)
    | _ => none

/-- The statement that a JSON record is. -/
def Select.ofJson? : Nat → Json → Option Select
  | 0, _ => none
  | depth + 1, j =>
    match j.fields? ["projection", "selection", "table_name"] with
    | some [some projection, selection, some table] => do
      let projection ← Ast.itemsOfJson? depth projection
      let table ← table.string?
      match selection.getD .null with
      | .null => some ⟨projection, none, table⟩
      | condition =>
        let condition ← Ast.ofJson? depth condition
        some ⟨projection, some condition, table⟩
    | _ => none

/-- The trees that a JSON array holds. -/
def Ast.itemsOfJson? : Nat → Json → Option (List Ast)
  | 0, _ => none
  | depth + 1, j =>
    match j with
    | .array items => items.mapM (Ast.ofJson? depth)
    | _ => none

end

end SelectPlanner
