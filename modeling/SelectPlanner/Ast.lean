/-
The syntax trees of queries.

A tree holds what was written: names, the text of operators, literals, renamings, and SELECT
statements, which may stand wherever an expression may.  Rendering writes a tree back as a query,
without parentheses, for a tree that was read needs none.
-/
import SelectPlanner.Double.Shortest

namespace SelectPlanner

/-- An expression as it was written. -/
inductive Ast where
  /-- The name of a column. -/
  | identifier (name : String)
  /-- Two expressions with an operator between them. -/
  | binary (left : Ast) (op : String) (right : Ast)
  | string (value : String)
  | long (value : Int64)
  | double (value : Double)
  /-- An expression and the name that it is given. -/
  | renamed (expr : Ast) (name : String)
  /-- A SELECT statement: its items, its condition, its table. -/
  | select (projection : List Ast) (selection : Option Ast) (table : String)
  deriving Inhabited

/-- A SELECT statement. -/
structure Select where
  /-- The items in the order of the statement. -/
  projection : List Ast
  /-- The condition that rows have to meet. -/
  selection : Option Ast
  /-- The table that rows come from. -/
  table : String
  deriving Inhabited

/-- A statement as an expression. -/
def Select.toAst (s : Select) : Ast := .select s.projection s.selection s.table

namespace Ast

/-- The statement that an expression is. -/
def select? : Ast → Option Select
  | select projection selection table => some ⟨projection, selection, table⟩
  | _ => none

/-- Whether it produces rows and not values. -/
def isRelation (e : Ast) : Bool := e.select?.isSome

/-! ### Rendering -/

mutual

/-- An expression as a query text. -/
def render : Ast → String
  | identifier name => name
  | binary left op right => left.render ++ " " ++ op ++ " " ++ right.render
  | string value => "'" ++ value ++ "'"
  | long value => Numeral.renderInt value.toInt
  | double value => value.render
  | renamed expr name => expr.render ++ " AS " ++ name
  | select projection none table => "SELECT " ++ renderItems projection ++ " FROM " ++ table
  | select projection (some condition) table =>
    "SELECT " ++ renderItems projection ++ " FROM " ++ table ++ " WHERE " ++ condition.render

/-- Expressions with commas between them. -/
def renderItems : List Ast → String
  | [] => ""
  | [e] => e.render
  | e :: es => e.render ++ ", " ++ renderItems es

end

/-! ### Equality -/

mutual

/-- Decides whether two trees are the same. -/
def decEq (a b : Ast) : Decidable (a = b) :=
  match a with
  | identifier n => match b with
    | identifier m => decidable_of_iff (n = m) (by simp)
    | binary .. | string _ | long _ | double _ | renamed .. | select .. => isFalse nofun
  | binary l o r => match b with
    | binary l' o' r' =>
      have := decEq l l'
      have := decEq r r'
      decidable_of_iff (l = l' ∧ o = o' ∧ r = r') (by simp)
    | identifier _ | string _ | long _ | double _ | renamed .. | select .. => isFalse nofun
  | string v => match b with
    | string w => decidable_of_iff (v = w) (by simp)
    | identifier _ | binary .. | long _ | double _ | renamed .. | select .. => isFalse nofun
  | long v => match b with
    | long w => decidable_of_iff (v = w) (by simp)
    | identifier _ | binary .. | string _ | double _ | renamed .. | select .. => isFalse nofun
  | double v => match b with
    | double w => decidable_of_iff (v = w) (by simp)
    | identifier _ | binary .. | string _ | long _ | renamed .. | select .. => isFalse nofun
  | renamed e n => match b with
    | renamed e' n' =>
      have := decEq e e'
      decidable_of_iff (e = e' ∧ n = n') (by simp)
    | identifier _ | binary .. | string _ | long _ | double _ | select .. => isFalse nofun
  | select p none t => match b with
    | select p' none t' =>
      have := decEqItems p p'
      decidable_of_iff (p = p' ∧ t = t') (by simp)
    | select _ (some _) _ => isFalse nofun
    | identifier _ | binary .. | string _ | long _ | double _ | renamed .. => isFalse nofun
  | select p (some w) t => match b with
    | select p' (some w') t' =>
      have := decEqItems p p'
      have := decEq w w'
      decidable_of_iff (p = p' ∧ w = w' ∧ t = t') (by simp)
    | select _ none _ => isFalse nofun
    | identifier _ | binary .. | string _ | long _ | double _ | renamed .. => isFalse nofun

/-- Decides whether two lists of trees are the same. -/
def decEqItems (as bs : List Ast) : Decidable (as = bs) :=
  match as, bs with
  | [], [] => isTrue rfl
  | [], _ :: _ | _ :: _, [] => isFalse nofun
  | a :: as, b :: bs =>
    have := decEq a b
    have := decEqItems as bs
    decidable_of_iff (a = b ∧ as = bs) (by simp)

end

instance : DecidableEq Ast := decEq

end Ast

deriving instance DecidableEq for Select

/-- A statement as a query text. -/
def Select.render (s : Select) : String := s.toAst.render

end SelectPlanner
