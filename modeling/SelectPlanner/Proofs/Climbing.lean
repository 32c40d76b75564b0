/-
Reading at a lower precedence goes on where reading at a higher one stops.

Both start with the same operand and extend it for as long as the next token binds tightly enough.
What is tight enough for the higher precedence is so for the lower one, and an extension reads to
its right at the precedence of its own token, whatever called for the expression.  So the two loops
take the same turns until the higher one stops: if it fails the lower one fails in the same place,
and if it ends the lower one takes up the expression that was read and goes on from there.

`Climbs` is the loop by its turns, with nothing in it of how the loop is computed.
-/
import Mathlib
import SelectPlanner.Ast.Parser.Lemmas

namespace SelectPlanner.Parser

open Token (nextPrecedence)

variable {p q : Nat} {e : Ast} {ts : List Token} {o : Outcome Ast}

/-! ### The loop, one turn after the other -/

/-- Extends an expression as long as the next token binds more tightly than `p`, with an operator's
right side at the precedence of that token. -/
inductive Climbs (p : Nat) : Ast → List Token → Outcome Ast → Prop where
  /-- The next token binds too loosely, or there is none. -/
  | stop {e : Ast} {ts : List Token} (h : nextPrecedence ts ≤ p) : Climbs p e ts ⟨.ok e, ts⟩
  /-- An extension fails, and the loop with it. -/
  | fail {e : Ast} {ts rest : List Token} {err : Error} (h : p < nextPrecedence ts)
      (hturn : parseExtension e (nextPrecedence ts) ts = ⟨.error err, rest⟩) :
      Climbs p e ts ⟨.error err, rest⟩
  /-- One turn more, with the extended expression in place of the one before. -/
  | turn {e longer : Ast} {ts mid : List Token} {o : Outcome Ast} (h : p < nextPrecedence ts)
      (hturn : parseExtension e (nextPrecedence ts) ts = ⟨.ok longer, mid⟩)
      (hmore : Climbs p longer mid o) : Climbs p e ts o

/-- Every turn consumes a token, so the loop has an outcome. -/
theorem climbs_parseExtensions (p : Nat) (e : Ast) (ts : List Token) :
    Climbs p e ts (parseExtensions e p ts) := by
  induction hk : ts.length using Nat.strongRecOn generalizing e ts with
  | ind k ih =>
      rw [parseExtensions_eq]
      by_cases h : p < nextPrecedence ts
      · rw [if_pos h]
        rcases hturn : parseExtension e (nextPrecedence ts) ts with ⟨result, mid⟩
        cases result with
        | error err => exact .fail h hturn
        | ok longer =>
            have hlen := length_of_parseExtension hturn
            exact .turn h hturn (ih mid.length (by omega) longer mid rfl)
      · rw [if_neg h]
        exact .stop (by omega)

/-- The loop has no other outcome. -/
theorem Climbs.eq_parseExtensions (h : Climbs p e ts o) : o = parseExtensions e p ts := by
  induction h with
  | stop h => rw [parseExtensions_eq, if_neg (by omega)]
  | fail h hturn => rw [parseExtensions_eq, if_pos h, hturn, andThen_error]
  | turn h hturn _ ih => rw [parseExtensions_eq, if_pos h, hturn, andThen_ok, ih]

theorem climbs_iff : Climbs p e ts o ↔ o = parseExtensions e p ts := by
  constructor
  · exact Climbs.eq_parseExtensions
  · intro h
    subst h
    exact climbs_parseExtensions p e ts

/-! ### Two precedences -/

/-- The turns at a higher precedence come first at a lower one. -/
theorem Climbs.andThen_lower (hpq : p ≤ q) (h : Climbs q e ts o) :
    parseExtensions e p ts = o.andThen fun longer rest => parseExtensions longer p rest := by
  induction h with
  | stop => rw [andThen_ok]
  | fail h hturn =>
      rw [parseExtensions_eq, if_pos (by omega), hturn, andThen_error]
  | turn h hturn _ ih =>
      rw [parseExtensions_eq, if_pos (by omega), hturn, andThen_ok, ih]

/-- What reading at a precedence makes of an operand, or of an expression that was read already. -/
def goOn (p : Nat) : Option Ast → List Token → Outcome (Option Ast)
  | none, rest => ⟨.ok none, rest⟩
  | some e, rest => (parseExtensions e p rest).map some

theorem parse_eq_goOn (p : Nat) (ts : List Token) :
    parse p ts = (parseOperand ts).andThen (goOn p) := by
  rw [parse_eq]
  congr 1
  funext found rest
  cases found <;> rfl

theorem goOn_lower (hpq : p ≤ q) (found : Option Ast) (rest : List Token) :
    goOn p found rest = (goOn q found rest).andThen (goOn p) := by
  cases found with
  | none => rfl
  | some e =>
      show (parseExtensions e p rest).map some =
        ((parseExtensions e q rest).map some).andThen (goOn p)
      rw [(climbs_parseExtensions q e rest).andThen_lower hpq]
      rcases parseExtensions e q rest with ⟨result, mid⟩
      cases result <;> rfl

theorem parse_lower (hpq : p ≤ q) (ts : List Token) :
    parse p ts = (parse q ts).andThen (goOn p) := by
  rw [parse_eq_goOn, parse_eq_goOn]
  rcases parseOperand ts with ⟨result, mid⟩
  cases result with
  | error err => rfl
  | ok found => exact goOn_lower hpq found mid

/-- **Reading at a lower precedence continues reading at a higher one.**  A failure at the higher
precedence is the failure at the lower one, with the same tokens left; nothing stays nothing; and
from an expression, and what it left, the loop at the lower precedence leads to one outcome, which
is the one that reading there has in the first place. -/
theorem parse_of_le (hpq : p ≤ q) (ts : List Token) :
    (∀ err rest, parse q ts = ⟨.error err, rest⟩ → parse p ts = ⟨.error err, rest⟩) ∧
    (∀ rest, parse q ts = ⟨.ok none, rest⟩ → parse p ts = ⟨.ok none, rest⟩) ∧
    ∀ e rest, parse q ts = ⟨.ok (some e), rest⟩ →
      ∃ o, (∀ o', Climbs p e rest o' ↔ o' = o) ∧ parse p ts = o.map some := by
  rw [parse_lower hpq]
  refine ⟨?_, ?_, ?_⟩
  · intro err rest h
    rw [h, andThen_error]
  · intro rest h
    rw [h, andThen_ok, goOn]
  · intro e rest h
    refine ⟨_, fun o' => climbs_iff, ?_⟩
    rw [h, andThen_ok, goOn]

/-- `a * b`. -/
def product : Ast := .binary (.identifier "a") "*" (.identifier "b")

/-- The tokens of `+ c AND`. -/
def sumTokens : List Token := [⟨.operator, "+"⟩, ⟨.identifier, "c"⟩, ⟨.keyword, "AND"⟩]

/-- The tokens of `a * b + c AND`. -/
def productTokens : List Token :=
  ⟨.identifier, "a"⟩ :: ⟨.operator, "*"⟩ :: ⟨.identifier, "b"⟩ :: sumTokens

/-- A product is read where sums are too loose; where they are not, the loop goes on from the
product and fails behind the sum. -/
theorem parse_of_le_product :
    0 ≤ 50 ∧ parse 50 productTokens = ⟨.ok (some product), sumTokens⟩ ∧
      parse 0 productTokens =
        ⟨.error (.unexpectedEnd "expected expression after 'AND'"), []⟩ ∧
      Climbs 0 product sumTokens
        ⟨.error (.unexpectedEnd "expected expression after 'AND'"), []⟩ := by
  have htight : parse 50 productTokens = ⟨.ok (some product), sumTokens⟩ := by cbv
  have hloose : parse 0 productTokens =
      ⟨.error (.unexpectedEnd "expected expression after 'AND'"), []⟩ := by cbv
  obtain ⟨-, -, hcontinues⟩ := parse_of_le (Nat.zero_le 50) productTokens
  obtain ⟨o, hclimbs, ho⟩ := hcontinues product sumTokens htight
  refine ⟨Nat.zero_le 50, htight, hloose, ?_⟩
  rw [hclimbs]
  rw [hloose] at ho
  rcases o with ⟨result, rest⟩
  cases result with
  | error err =>
      obtain ⟨rfl, rfl⟩ : _ = err ∧ [] = rest := by simpa using ho
      rfl
  | ok longer => simp at ho

end SelectPlanner.Parser
