/-
The one statement that a text is.

A text may hold a single expression and a semicolon behind it; nothing else may follow.  A query
is a statement that is a SELECT.
-/
import SelectPlanner.Ast.Parser
import SelectPlanner.Token.Sequence

namespace SelectPlanner

/-- The statement that tokens make. -/
def Ast.ofTokens (ts : List Token) : Except Error Ast :=
  match Parser.parse 0 ts with
  | ⟨.error e, _⟩ => .error e
  | ⟨.ok none, _⟩ => .error (.unexpectedEnd "empty statement")
  | ⟨.ok (some e), rest⟩ =>
    match (Token.afterPunctuation? ";" rest).getD rest with
    | [] => .ok e
    | t :: _ => .error (.unexpectedToken t.render "after end of statement")

/-- The statement that a text is. -/
def Ast.ofText (sql : String) : Except Error Ast :=
  match Token.ofText sql with
  | .error e => .error e
  | .ok ts => Ast.ofTokens ts

/-- The query that a text is. -/
def Select.ofText (sql : String) : Except Error Select :=
  match Ast.ofText sql with
  | .error e => .error e
  | .ok e =>
    match e.select? with
    | some s => .ok s
    | none => .error (.notAQuery e.render)

end SelectPlanner
