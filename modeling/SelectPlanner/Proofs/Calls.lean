/-
The calls that reading makes.

Expressions, operands, their extensions, SELECT lists and statements are read in terms of one
another.  A `Call` is one of these readers in front of some tokens.  `Call.body` is what the reader
does, with the outcomes of the calls inside it taken from an account of all calls; the account of
the parser is the one that follows the bodies everywhere (`body_outcome`).

`Call.Makes` lists the calls that a call makes by itself, and `Call.Involves` those that are made
anywhere in its course.  Nothing is missing from the list, for a body asks its account about no
other call (`body_congr`).  So an account has to follow the bodies at the calls that are made, and
may say anything about the others (`eq_outcome_of_involves`).
-/
import Mathlib
import SelectPlanner.Proofs.Progress

namespace SelectPlanner.Parser

open Token (nextPrecedence)

/-- A reader in front of some tokens. -/
inductive Call where
  /-- An expression whose operators bind more tightly than `p`. -/
  | expression (p : Nat) (ts : List Token)
  | operand (ts : List Token)
  /-- All extensions of an expression that bind more tightly than `p`. -/
  | extensions (left : Ast) (p : Nat) (ts : List Token)
  /-- One extension, with an operator's right side binding more tightly than `q`. -/
  | extension (left : Ast) (q : Nat) (ts : List Token)
  /-- What follows the word SELECT. -/
  | selectBody (ts : List Token)
  | items (ts : List Token)

namespace Call

/-- What a call reads. -/
abbrev Value : Call → Type
  | expression .. | operand _ => Option Ast
  | extensions .. | extension .. => Ast
  | selectBody _ => Select
  | items _ => List Ast

/-- What a call comes to. -/
def outcome : (c : Call) → Outcome c.Value
  | expression p ts => parse p ts
  | operand ts => parseOperand ts
  | extensions left p ts => parseExtensions left p ts
  | extension left q ts => parseExtension left q ts
  | selectBody ts => parseSelectBody ts
  | items ts => parseItems ts

/-- What a call comes to if the calls inside it come to what the account says. -/
def body (account : (c : Call) → Outcome c.Value) : (c : Call) → Outcome c.Value
  | expression p ts => (account (operand ts)).andThen fun (found : Option Ast) rest =>
    match found with
    | none => ⟨.ok none, rest⟩
    | some e => (account (extensions e p rest)).map some
  | operand [] => ⟨.ok none, []⟩
  | operand (t :: ts) =>
    if t = ⟨.keyword, "SELECT"⟩ then (account (selectBody ts)).map fun s => some s.toAst
    else parseOperand (t :: ts)
  | extensions left p ts =>
    if p < nextPrecedence ts then
      (account (extension left (nextPrecedence ts) ts)).andThen fun longer rest =>
        account (extensions longer p rest)
    else ⟨.ok left, ts⟩
  | extension left _ [] =>
    fail (.unexpectedEnd ("expected operator after " ++ left.render)) []
  | extension left q (t :: ts) =>
    if t.kind = .operator ∨ t.kind = .keyword ∧ (t.text = "AND" ∨ t.text = "OR") then
      (account (expression q ts)).andThen fun (found : Option Ast) rest =>
        match found with
        | none => fail (.unexpectedEnd ("expected expression after '" ++ t.text ++ "'")) rest
        | some right => ⟨.ok (.binary left t.text right), rest⟩
    else if t.kind = .keyword ∧ t.text = "AS" then (parseName "after AS" ts).map (.renamed left)
    else fail (.unexpectedToken t.render ("after " ++ left.render)) ts
  | selectBody ts => (account (items ts)).andThen fun projection rest =>
    (parseSource rest).andThen fun table rest =>
      match Token.afterKeyword? "WHERE" rest with
      | none => ⟨.ok ⟨projection, none, table⟩, rest⟩
      | some rest => (account (expression 0 rest)).andThen fun (found : Option Ast) rest =>
        match found with
        | none => fail (.unexpectedEnd "expected predicate after WHERE") rest
        | some condition => ⟨.ok ⟨projection, some condition, table⟩, rest⟩
  | items ts => (account (expression 0 ts)).andThen fun (found : Option Ast) rest =>
    match found with
    | none => ⟨.ok [], rest⟩
    | some item =>
      match Token.afterPunctuation? "," rest with
      | none => ⟨.ok [item], rest⟩
      | some more => (account (items more)).map (item :: ·)

/-- The parser follows the bodies. -/
theorem body_outcome (c : Call) : c.body outcome = c.outcome := by
  cases c with
  | expression p ts => exact (parse_eq p ts).symm
  | operand ts =>
      cases ts with
      | nil => rfl
      | cons t ts =>
          by_cases hselect : t = ⟨.keyword, "SELECT"⟩
          · subst hselect
            simp only [body, outcome, if_pos, parseOperand_cons]
          · exact if_neg hselect
  | extensions left p ts => exact (parseExtensions_eq left p ts).symm
  | extension left q ts =>
      cases ts with
      | nil => rfl
      | cons t ts => exact (parseExtension_cons left q t ts).symm
  | selectBody ts => exact (parseSelectBody_eq ts).symm
  | items ts => exact (parseItems_eq ts).symm

/-! ### Which calls are made -/

/-- The calls that a call makes by itself.  What the calls before them came to decides which. -/
inductive Makes : Call → Call → Prop where
  | operand (p : Nat) (ts : List Token) : Makes (expression p ts) (operand ts)
  /-- The operand is extended. -/
  | loop (p : Nat) {e : Ast} {ts rest : List Token} (h : parseOperand ts = ⟨.ok (some e), rest⟩) :
      Makes (expression p ts) (extensions e p rest)
  | select (ts : List Token) : Makes (operand (⟨.keyword, "SELECT"⟩ :: ts)) (selectBody ts)
  /-- The next token binds tightly enough. -/
  | turn (left : Ast) {p : Nat} {ts : List Token} (h : p < nextPrecedence ts) :
      Makes (extensions left p ts) (extension left (nextPrecedence ts) ts)
  /-- What was extended is extended further. -/
  | again {left longer : Ast} {p : Nat} {ts rest : List Token} (h : p < nextPrecedence ts)
      (hturn : parseExtension left (nextPrecedence ts) ts = ⟨.ok longer, rest⟩) :
      Makes (extensions left p ts) (extensions longer p rest)
  | right (left : Ast) (q : Nat) {t : Token} (h : t.IsInfix) (ts : List Token) :
      Makes (extension left q (t :: ts)) (expression q ts)
  | items (ts : List Token) : Makes (selectBody ts) (items ts)
  | condition {projection : List Ast} {table : String} {ts fromOn whereOn rest : List Token}
      (hitems : parseItems ts = ⟨.ok projection, fromOn⟩)
      (hsource : parseSource fromOn = ⟨.ok table, whereOn⟩)
      (hwhere : Token.afterKeyword? "WHERE" whereOn = some rest) :
      Makes (selectBody ts) (expression 0 rest)
  | item (ts : List Token) : Makes (items ts) (expression 0 ts)
  /-- A comma follows the item. -/
  | more {item : Ast} {ts rest others : List Token}
      (hitem : parse 0 ts = ⟨.ok (some item), rest⟩)
      (hcomma : Token.afterPunctuation? "," rest = some others) : Makes (items ts) (items others)

/-- The call `d` is made in the course of `c`, at any depth. -/
def Involves (c d : Call) : Prop := Relation.ReflTransGen Makes c d

/-- Outcomes are the same if what is done next is the same with what was read. -/
theorem andThen_congr {α β : Type} {o : Outcome α} {f g : α → List Token → Outcome β}
    (h : ∀ a rest, o = ⟨.ok a, rest⟩ → f a rest = g a rest) : o.andThen f = o.andThen g := by
  rcases o with ⟨err | a, rest⟩
  · rfl
  · exact h a rest rfl

/-- A body asks about no other calls. -/
theorem body_congr {account : (c : Call) → Outcome c.Value} {c : Call}
    (h : ∀ d, c.Makes d → account d = d.outcome) : c.body account = c.outcome := by
  rw [← body_outcome]
  cases c with
  | expression p ts =>
      simp only [body, h _ (.operand p ts)]
      refine andThen_congr fun found rest hread => ?_
      cases found with
      | none => rfl
      | some e => simp only [h _ (.loop p hread)]
  | operand ts =>
      cases ts with
      | nil => rfl
      | cons t ts =>
          by_cases hselect : t = ⟨.keyword, "SELECT"⟩
          · subst hselect
            simp only [body, h _ (.select ts)]
          · simp only [body, if_neg hselect]
  | extensions left p ts =>
      by_cases hp : p < nextPrecedence ts
      · simp only [body, if_pos hp, h _ (.turn left hp)]
        exact andThen_congr fun longer rest hturn => h _ (.again hp hturn)
      · simp only [body, if_neg hp]
  | extension left q ts =>
      cases ts with
      | nil => rfl
      | cons t ts =>
          by_cases hjoin : t.IsInfix
          · simp only [body, h _ (.right left q hjoin ts)]
          · unfold Token.IsInfix at hjoin
            simp only [body, if_neg hjoin]
  | selectBody ts =>
      simp only [body, h _ (.items ts)]
      refine andThen_congr fun projection fromOn hitems => ?_
      refine andThen_congr fun table whereOn hsource => ?_
      cases hwhere : Token.afterKeyword? "WHERE" whereOn with
      | none => rfl
      | some rest => simp only [h _ (.condition hitems hsource hwhere)]
  | items ts =>
      simp only [body, h _ (.item ts)]
      refine andThen_congr fun found rest hitem => ?_
      cases found with
      | none => rfl
      | some item =>
          cases hcomma : Token.afterPunctuation? "," rest with
          | none => rfl
          | some others => simp only [h _ (.more hitem hcomma)]

/-! ### Calls inside calls are smaller -/

/-- The tokens count first, and for calls in front of the same tokens the reader does. -/
def size : Call → Nat
  | operand ts | extension _ _ ts => 4 * ts.length
  | expression _ ts | extensions _ _ ts => 4 * ts.length + 1
  | items ts => 4 * ts.length + 2
  | selectBody ts => 4 * ts.length + 3

theorem Makes.size_lt {c d : Call} (h : c.Makes d) : d.size < c.size := by
  cases h with
  | operand | turn | items | item =>
      simp only [size]
      omega
  | loop p h =>
      have hless := length_of_parseOperand h
      simp only [size]
      omega
  | select | right =>
      simp only [size, List.length_cons]
      omega
  | again h hturn =>
      have hless := length_of_parseExtension hturn
      simp only [size]
      omega
  | condition hitems hsource hwhere =>
      have hitems' := length_of_outcome hitems
      have hsource' := length_of_outcome hsource
      have hless := Token.length_of_afterKeyword? hwhere
      simp only [size]
      omega
  | more hitem hcomma =>
      have hitem' := length_of_parse hitem
      have hless := Token.length_of_afterPunctuation? hcomma
      simp only [size]
      omega

/-- What holds of a call as soon as it holds of the calls that it makes holds of all calls. -/
@[elab_as_elim]
theorem makes_induction {motive : Call → Prop}
    (step : ∀ c, (∀ d, c.Makes d → motive d) → motive c) (c : Call) : motive c := by
  induction hk : c.size using Nat.strongRecOn generalizing c with
  | ind k ih =>
      refine step c fun d hd => ih d.size ?_ d rfl
      have hless := hd.size_lt
      omega

/-- An account that follows the bodies wherever a call is made is right about the whole. -/
theorem eq_outcome_of_involves {account : (c : Call) → Outcome c.Value} {c : Call}
    (h : ∀ d, c.Involves d → account d = d.body account) : account c = c.outcome := by
  induction c using makes_induction with
  | step c ih =>
      rw [h c .refl]
      refine body_congr fun d hd => ih d hd fun d' hd' => h d' ?_
      exact .head hd hd'

end Call

end SelectPlanner.Parser
