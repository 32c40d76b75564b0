/-
Reading expressions off a list of tokens by precedence.

An expression starts with an operand and goes on as long as the next token binds more tightly than
what called for the expression: `climb` takes such a token together with what belongs to its
right, which makes a larger expression, and tries again.  What stands to the right of an operator
is an expression of that operator's own precedence, so operators of one precedence group to the
left.  A SELECT is an operand; its items and its condition are expressions of precedence 0.

Every function takes the part of the list that it may consume and returns the part that it left,
which is what the recursion descends on.  To its callers the module offers outcomes: a result or
an error, with the tokens that were not consumed in either case.
-/
import SelectPlanner.Ast
import SelectPlanner.Double.Decimal
import SelectPlanner.Error
import SelectPlanner.Reading
import SelectPlanner.Token

namespace SelectPlanner.Parser

/-- Where reading stopped, and why. -/
structure Failure where
  /-- The cause. -/
  error : Error
  /-- The tokens that were not consumed. -/
  rest : List Token
  deriving DecidableEq

/-- An outcome that leaves at most `bound` tokens when it is a success. -/
abbrev Read (bound : Nat) (α : Type) := Except Failure (Reading Token bound α)

/-- The complaint about a token that cannot stand here. -/
def unexpected (t : Token) (context : String) (rest : List Token) : Failure :=
  ⟨.unexpectedToken t.render context, rest⟩

/-- The value of a literal that is to be of a kind. -/
def literal (kind : String) (t : Token) (rest : List Token) (value : Option Ast) :
    Read rest.length Ast :=
  match value with
  | some e => .ok ⟨e, rest, Nat.le_refl _⟩
  | none => .error ⟨.invalidLiteral kind t.text, rest⟩

/-- A name, which is to stand in this place. -/
def name (place : String) : (ts : List Token) → Read ts.length String
  | [] => .error ⟨.missingIdentifier (Token.describeNext [] ++ " " ++ place), []⟩
  | t :: ts =>
    if t.kind = .identifier then .ok ⟨t.text, ts, Nat.le_succ _⟩
    else .error ⟨.missingIdentifier (t.render ++ " " ++ place), ts⟩

/-- The table after FROM. -/
def source (ts : List Token) : Read ts.length String :=
  match h : Token.afterKeyword? "FROM" ts with
  | none => .error ⟨.missingKeyword "FROM" (Token.describeNext ts), ts⟩
  | some rest => (name "as table name" rest).map fun r =>
    r.widen (Nat.le_of_lt (Token.length_of_afterKeyword? h))

mutual

/-- An expression whose operators all bind more tightly than `p`, at the front of `t :: ts`. -/
def expression (p : Nat) (t : Token) (ts : List Token) : Read ts.length Ast :=
  match operand t ts with
  | .error f => .error f
  | .ok ⟨left, rest, h⟩ => (climb p left rest).map (·.widen h)
termination_by 4 * ts.length + 3

/-- Continues an expression as long as the next token binds more tightly than `p`. -/
def climb (p : Nat) (left : Ast) (ts : List Token) : Read ts.length Ast :=
  match ts with
  | [] => .ok ⟨left, [], Nat.le_refl _⟩
  | t :: ts =>
    if p < t.precedence then
      match extend left t.precedence t ts with
      | .error f => .error f
      | .ok ⟨longer, rest, h⟩ => (climb p longer rest).map (·.widen (Nat.le_succ_of_le h))
    else .ok ⟨left, t :: ts, Nat.le_refl _⟩
termination_by 4 * ts.length

/-- The operand at the front of `t :: ts`. -/
def operand (t : Token) (ts : List Token) : Read ts.length Ast :=
  match t.kind with
  | .identifier => .ok ⟨.identifier t.text, ts, Nat.le_refl _⟩
  | .string => .ok ⟨.string t.text, ts, Nat.le_refl _⟩
  | .long => literal "integer" t ts ((Numeral.long? t.text.toList).map .long)
  | .double => literal "double" t ts ((Double.ofText? t.text.toList).map .double)
  | .keyword =>
    if t.text = "SELECT" then (select ts).map (·.map Select.toAst)
    else .error (unexpected t "at start of expression" ts)
  | .operator | .punctuation => .error (unexpected t "at start of expression" ts)
termination_by 4 * ts.length + 2

/-- The expression that `t :: ts` makes of `left`: a renaming, or an operator and what belongs to
its right, which binds more tightly than `p`. -/
def extend (left : Ast) (p : Nat) (t : Token) (ts : List Token) : Read ts.length Ast :=
  if t.kind = .operator ∨ t.kind = .keyword ∧ (t.text = "AND" ∨ t.text = "OR") then
    match ts with
    | [] => .error ⟨.unexpectedEnd ("expected expression after '" ++ t.text ++ "'"), []⟩
    | u :: us => (expression p u us).map fun r =>
      (r.map (.binary left t.text)).widen (Nat.le_succ _)
  else if t.kind = .keyword ∧ t.text = "AS" then
    (name "after AS" ts).map (·.map (.renamed left))
  else .error (unexpected t ("after " ++ left.render) ts)
termination_by 4 * ts.length

/-- What follows the word SELECT. -/
def select (ts : List Token) : Read ts.length Select :=
  match items ts with
  | .error f => .error f
  | .ok ⟨projection, fromOn, h₁⟩ =>
    match source fromOn with
    | .error f => .error f
    | .ok ⟨table, rest, h₂⟩ =>
      match h₃ : Token.afterKeyword? "WHERE" rest with
      | none => .ok ⟨⟨projection, none, table⟩, rest, Nat.le_trans h₂ h₁⟩
      | some [] => .error ⟨.unexpectedEnd "expected predicate after WHERE", []⟩
      | some (u :: us) =>
        have shorter : us.length + 1 < ts.length :=
          Nat.lt_of_lt_of_le (Token.length_of_afterKeyword? h₃) (Nat.le_trans h₂ h₁)
        (expression 0 u us).map fun r =>
          (r.map fun condition => ⟨projection, some condition, table⟩).widen (by omega)
termination_by 4 * ts.length + 1

/-- Expressions with commas between them.  After a comma the input may end. -/
def items (ts : List Token) : Read ts.length (List Ast) :=
  match ts with
  | [] => .ok ⟨[], [], Nat.le_refl _⟩
  | t :: ts =>
    match expression 0 t ts with
    | .error f => .error f
    | .ok ⟨item, rest, h₁⟩ =>
      match h₂ : Token.afterPunctuation? "," rest with
      | none => .ok ⟨[item], rest, Nat.le_succ_of_le h₁⟩
      | some more =>
        have shorter : more.length < ts.length :=
          Nat.lt_of_lt_of_le (Token.length_of_afterPunctuation? h₂) h₁
        (items more).map fun r =>
          (r.map (item :: ·)).widen (Nat.le_succ_of_le (Nat.le_of_lt shorter))
termination_by 4 * ts.length

end

/-! ### Outcomes -/

/-- What came of reading: a result or an error, and the tokens that were not consumed. -/
structure Outcome (α : Type) where
  /-- What was read, or why nothing was. -/
  result : Except Error α
  /-- The tokens that were not consumed. -/
  rest : List Token

/-- The outcome of a reading. -/
def outcome {bound : Nat} {α : Type} : Read bound α → Outcome α
  | .ok r => ⟨.ok r.value, r.rest⟩
  | .error f => ⟨.error f.error, f.rest⟩

/-- A complaint, with the tokens that are left. -/
def fail {α : Type} (e : Error) (rest : List Token) : Outcome α := ⟨.error e, rest⟩

/-- The same outcome with another value. -/
def Outcome.map {α β : Type} (f : α → β) (o : Outcome α) : Outcome β := ⟨o.result.map f, o.rest⟩

/-- Goes on with what was read, unless there was an error. -/
def Outcome.andThen {α β : Type} (o : Outcome α) (f : α → List Token → Outcome β) : Outcome β :=
  match o.result with
  | .ok a => f a o.rest
  | .error e => ⟨.error e, o.rest⟩

/-- The operand at the front; none at the end of the input. -/
def parseOperand : List Token → Outcome (Option Ast)
  | [] => ⟨.ok none, []⟩
  | t :: ts => (outcome (operand t ts)).map some

/-- The expression whose operators all bind more tightly than `p`, at the front; none at the end of
the input. -/
def parse (p : Nat) : List Token → Outcome (Option Ast)
  | [] => ⟨.ok none, []⟩
  | t :: ts => (outcome (expression p t ts)).map some

/-- The expression that the front makes of `left`, with an operator's right side binding more
tightly than `p`. -/
def parseExtension (left : Ast) (p : Nat) : List Token → Outcome Ast
  | [] => fail (.unexpectedEnd ("expected operator after " ++ left.render)) []
  | t :: ts => outcome (extend left p t ts)

/-- The whole of what the front makes of `left` by extensions that bind more tightly than `p`. -/
def parseExtensions (left : Ast) (p : Nat) (ts : List Token) : Outcome Ast :=
  outcome (climb p left ts)

/-- What follows the word SELECT. -/
def parseSelectBody (ts : List Token) : Outcome Select := outcome (select ts)

/-- Expressions with commas between them. -/
def parseItems (ts : List Token) : Outcome (List Ast) := outcome (items ts)

/-- A name, which is to stand in this place. -/
def parseName (place : String) (ts : List Token) : Outcome String := outcome (name place ts)

/-- The table after FROM. -/
def parseSource (ts : List Token) : Outcome String := outcome (source ts)

end SelectPlanner.Parser
