/-
The equations of the parser.

The readers of expressions are defined over the part of the list that they may consume, with a
proof in every result.  Here each of them is given as an equation between outcomes, in which no
proof is left, and which is all that later modules know of it.  Reading an expression is reading
an operand and extending it; extending is a loop, one extension at a time, for as long as the next
token binds tightly enough.
-/
import SelectPlanner.Ast.Parser

namespace SelectPlanner.Parser

/-! ### Outcomes one after the other -/

theorem outcome_map {bound : Nat} {α β : Type} (f : α → β) (r : Read bound α) :
    outcome (r.map (·.map f)) = (outcome r).map f := by
  cases r <;> rfl

theorem outcome_widen {bound wider : Nat} {α : Type} (h : bound ≤ wider) (r : Read bound α) :
    outcome (r.map (·.widen h)) = outcome r := by
  cases r <;> rfl

theorem outcome_map_widen {bound wider : Nat} {α β : Type} (f : α → β) (h : bound ≤ wider)
    (r : Read bound α) :
    outcome (r.map fun r => (r.map f).widen h) = (outcome r).map f := by
  cases r <;> rfl

@[simp]
theorem outcome_ok {bound : Nat} {α : Type} (r : Reading Token bound α) :
    outcome (.ok r) = ⟨.ok r.value, r.rest⟩ := rfl

@[simp]
theorem outcome_error {bound : Nat} {α : Type} (f : Failure) :
    outcome (.error f : Read bound α) = ⟨.error f.error, f.rest⟩ := rfl

@[simp]
theorem andThen_ok {α β : Type} (a : α) (rest : List Token) (f : α → List Token → Outcome β) :
    (⟨.ok a, rest⟩ : Outcome α).andThen f = f a rest := rfl

@[simp]
theorem andThen_error {α β : Type} (e : Error) (rest : List Token)
    (f : α → List Token → Outcome β) :
    (⟨.error e, rest⟩ : Outcome α).andThen f = ⟨.error e, rest⟩ := rfl

@[simp]
theorem map_ok {α β : Type} (f : α → β) (a : α) (rest : List Token) :
    (⟨.ok a, rest⟩ : Outcome α).map f = ⟨.ok (f a), rest⟩ := rfl

@[simp]
theorem map_error {α β : Type} (f : α → β) (e : Error) (rest : List Token) :
    (⟨.error e, rest⟩ : Outcome α).map f = ⟨.error e, rest⟩ := rfl

@[simp]
theorem map_result {α β : Type} (f : α → β) (o : Outcome α) :
    (o.map f).result = o.result.map f := rfl

@[simp]
theorem map_rest {α β : Type} (f : α → β) (o : Outcome α) : (o.map f).rest = o.rest := rfl

theorem Outcome.andThen_eq_ok {α β : Type} {o : Outcome α} {f : α → List Token → Outcome β}
    {b : β} {rest : List Token} :
    o.andThen f = ⟨.ok b, rest⟩ ↔ ∃ a mid, o = ⟨.ok a, mid⟩ ∧ f a mid = ⟨.ok b, rest⟩ := by
  refine ⟨fun h => ?_, fun ⟨a, mid, ho, h⟩ => by rw [ho, andThen_ok, h]⟩
  obtain ⟨result, mid⟩ := o
  cases result with
  | error e => simp at h
  | ok a => exact ⟨a, mid, rfl, h⟩

theorem Outcome.map_eq_ok {α β : Type} {o : Outcome α} {f : α → β} {b : β} {rest : List Token} :
    o.map f = ⟨.ok b, rest⟩ ↔ ∃ a, o = ⟨.ok a, rest⟩ ∧ f a = b := by
  refine ⟨fun h => ?_, fun ⟨a, ho, h⟩ => by rw [ho, map_ok, h]⟩
  obtain ⟨result, mid⟩ := o
  cases result with
  | error e => simp at h
  | ok a =>
    obtain ⟨hb, hrest⟩ : f a = b ∧ mid = rest := by simpa using h
    exact ⟨a, by rw [hrest], hb⟩

theorem length_of_outcome {bound : Nat} {α : Type} {r : Read bound α} {a : α} {rest : List Token}
    (h : outcome r = ⟨.ok a, rest⟩) : rest.length ≤ bound := by
  cases r with
  | error f => simp at h
  | ok r =>
    obtain ⟨-, hrest⟩ : r.value = a ∧ r.rest = rest := by simpa using h
    rw [← hrest]
    exact r.within

theorem fail_ne_ok {α : Type} {e : Error} {a : α} {ts rest : List Token} :
    (fail e ts : Outcome α) ≠ ⟨.ok a, rest⟩ := by
  simp [fail]

/-! ### Expressions -/

theorem parse_eq (p : Nat) (ts : List Token) :
    parse p ts = (parseOperand ts).andThen fun e rest =>
      match e with
      | none => ⟨.ok none, rest⟩
      | some e => (parseExtensions e p rest).map some := by
  cases ts with
  | nil => rfl
  | cons t ts =>
    rw [parse, parseOperand, expression]
    cases operand t ts with
    | error f => rfl
    | ok r => simp only [outcome_widen]; rfl

theorem parseExtensions_eq (left : Ast) (p : Nat) (ts : List Token) :
    parseExtensions left p ts =
      if p < Token.nextPrecedence ts then
        (parseExtension left (Token.nextPrecedence ts) ts).andThen fun longer rest =>
          parseExtensions longer p rest
      else ⟨.ok left, ts⟩ := by
  unfold parseExtensions
  cases ts with
  | nil => simp [climb, Token.nextPrecedence, outcome]
  | cons t ts =>
    have next : Token.nextPrecedence (t :: ts) = t.precedence := rfl
    rw [climb, next, parseExtension]
    split
    · cases extend left t.precedence t ts with
      | error f => rfl
      | ok r => exact outcome_widen _ _
    · rfl

theorem parseExtension_cons (left : Ast) (p : Nat) (t : Token) (ts : List Token) :
    parseExtension left p (t :: ts) =
      if t.kind = .operator ∨ t.kind = .keyword ∧ (t.text = "AND" ∨ t.text = "OR") then
        (parse p ts).andThen fun e rest =>
          match e with
          | none => fail (.unexpectedEnd ("expected expression after '" ++ t.text ++ "'")) rest
          | some right => ⟨.ok (.binary left t.text right), rest⟩
      else if t.kind = .keyword ∧ t.text = "AS" then (parseName "after AS" ts).map (.renamed left)
      else fail (.unexpectedToken t.render ("after " ++ left.render)) ts := by
  rw [parseExtension, extend.eq_def]
  split
  · cases ts with
    | nil => rfl
    | cons u us =>
      simp only [outcome_map_widen, parse]
      cases expression p u us <;> rfl
  · split
    · exact outcome_map _ _
    · rfl

/-- An extension takes at least the token that asks for it. -/
theorem length_of_parseExtension {left longer : Ast} {p : Nat} {ts rest : List Token}
    (h : parseExtension left p ts = ⟨.ok longer, rest⟩) : rest.length < ts.length := by
  cases ts with
  | nil => exact absurd h fail_ne_ok
  | cons t ts => exact Nat.lt_succ_of_le (length_of_outcome h)

theorem parseOperand_cons (t : Token) (ts : List Token) :
    parseOperand (t :: ts) =
      match t.kind with
      | .identifier => ⟨.ok (some (.identifier t.text)), ts⟩
      | .string => ⟨.ok (some (.string t.text)), ts⟩
      | .long =>
        match Numeral.long? t.text.toList with
        | some n => ⟨.ok (some (.long n)), ts⟩
        | none => fail (.invalidLiteral "integer" t.text) ts
      | .double =>
        match Double.ofText? t.text.toList with
        | some d => ⟨.ok (some (.double d)), ts⟩
        | none => fail (.invalidLiteral "double" t.text) ts
      | .keyword =>
        if t.text = "SELECT" then (parseSelectBody ts).map fun s => some s.toAst
        else fail (.unexpectedToken t.render "at start of expression") ts
      | .operator | .punctuation =>
        fail (.unexpectedToken t.render "at start of expression") ts := by
  rw [parseOperand, operand]
  cases t.kind with
  | keyword =>
    by_cases h : t.text = "SELECT"
    · simp only [if_pos h, outcome_map, parseSelectBody]
      cases select ts <;> rfl
    · simp only [if_neg h]
      rfl
  | long => cases Numeral.long? t.text.toList <;> rfl
  | double => cases Double.ofText? t.text.toList <;> rfl
  | _ => rfl

theorem parseItems_eq (ts : List Token) :
    parseItems ts = (parse 0 ts).andThen fun e rest =>
      match e with
      | none => ⟨.ok [], rest⟩
      | some item =>
        match Token.afterPunctuation? "," rest with
        | none => ⟨.ok [item], rest⟩
        | some more => (parseItems more).map (item :: ·) := by
  unfold parseItems
  cases ts with
  | nil => rw [items]; rfl
  | cons t ts =>
    rw [items, parse]
    cases expression 0 t ts with
    | error f => rfl
    | ok r =>
      simp only [outcome_ok, map_ok, andThen_ok]
      split <;> rename_i found <;> simp only [found]
      · rfl
      · exact outcome_map_widen _ _ _

theorem parseSelectBody_eq (ts : List Token) :
    parseSelectBody ts = (parseItems ts).andThen fun projection rest =>
      (parseSource rest).andThen fun table rest =>
        match Token.afterKeyword? "WHERE" rest with
        | none => ⟨.ok ⟨projection, none, table⟩, rest⟩
        | some rest => (parse 0 rest).andThen fun e rest =>
          match e with
          | none => fail (.unexpectedEnd "expected predicate after WHERE") rest
          | some condition => ⟨.ok ⟨projection, some condition, table⟩, rest⟩ := by
  rw [parseSelectBody, select, parseItems]
  cases items ts with
  | error f => rfl
  | ok projection =>
    simp only [outcome_ok, andThen_ok, parseSource]
    cases source projection.rest with
    | error f => rfl
    | ok table =>
      simp only [outcome_ok, andThen_ok]
      split <;> rename_i found <;> simp only [found]
      · rfl
      · rfl
      · rw [parse, outcome_map_widen]
        rename_i u us
        cases expression 0 u us <;> rfl

theorem parseName_cons (place : String) (t : Token) (ts : List Token) :
    parseName place (t :: ts) =
      if t.kind = .identifier then ⟨.ok t.text, ts⟩
      else fail (.missingIdentifier (t.render ++ " " ++ place)) ts := by
  rw [parseName, name]
  split <;> rfl

theorem parseName_nil (place : String) :
    parseName place [] = fail (.missingIdentifier ("end of input " ++ place)) [] := rfl

theorem parseSource_eq (ts : List Token) :
    parseSource ts =
      match Token.afterKeyword? "FROM" ts with
      | none => fail (.missingKeyword "FROM" (Token.describeNext ts)) ts
      | some rest => parseName "as table name" rest := by
  rw [parseSource, source]
  split <;> rename_i found <;> simp only [found]
  · rfl
  · exact outcome_widen _ _

end SelectPlanner.Parser
