/-
What reading takes from the front, and how far ahead it looks.

Whatever becomes of it, reading leaves an end of the tokens that it started with.  A success has
looked no further than the first token that it left: with other tokens behind that one it is the
same success.  And a literal that a failure is about is among the tokens that were taken.

`Takes` says all this of a reader in front of some tokens.  It passes from readers to what is put
together from them, so the proof goes along the equations of the parser.  What holds a composition
together is the next token: a reader may look at it before it decides how to go on (`Takes.congr`),
and what the first of two readers leaves starts with the same token whether or not the tokens
behind the end of the second one are exchanged.
-/
import Mathlib
import SelectPlanner.Proofs.ParserCompleteness

namespace SelectPlanner

/-! ### Literals that denote nothing -/

/-- A number that reads as no value of its kind; the kind as messages name it. -/
def Token.Unreadable (kind : String) (t : Token) : Prop :=
  kind = "integer" ∧ t.kind = .long ∧ Numeral.long? t.text.toList = none ∨
    kind = "double" ∧ t.kind = .double ∧ Double.ofText? t.text.toList = none

/-- If the error is about a literal, then it is about one of these tokens. -/
def Error.Cites (taken : List Token) : Error → Prop
  | invalidLiteral kind text => ∃ t ∈ taken, t.text = text ∧ t.Unreadable kind
  | _ => True

theorem Error.Cites.mono {err : Error} {ts us : List Token} (h : err.Cites ts) (hsub : ts ⊆ us) :
    err.Cites us := by
  cases err with
  | invalidLiteral kind text =>
      obtain ⟨t, ht, hcited⟩ := h
      exact ⟨t, hsub ht, hcited⟩
  | _ => exact trivial

namespace Parser

open Token (nextPrecedence)

section Takes

variable {α β : Type} {read read' : List Token → Outcome α} {ts : List Token} {t : Token}

/-- Reading takes a front of `ts`, and what it took and the next token decide on a success. -/
inductive Takes (read : List Token → Outcome α) (ts : List Token) : Prop where
  | ok {a : α} {front rest : List Token} (split : ts = front ++ rest)
      (settled : ∀ after, after.head? = rest.head? → read (front ++ after) = ⟨.ok a, after⟩)
  | error {err : Error} {front rest : List Token} (split : ts = front ++ rest)
      (failed : read ts = ⟨.error err, rest⟩) (cites : err.Cites front)

/-- A reader may look at the next token first. -/
theorem Takes.congr (h : Takes read' ts)
    (heq : ∀ us, us.head? = ts.head? → read us = read' us) : Takes read ts := by
  cases h with
  | @ok a front rest split settled =>
      refine .ok (a := a) split fun after hafter => ?_
      have hhead : (front ++ after).head? = ts.head? := by
        rw [split, List.head?_append, List.head?_append, hafter]
      rw [heq _ hhead, settled after hafter]
  | error split failed cites => exact .error split ((heq ts rfl).trans failed) cites

/-- A reader may take the next token first. -/
theorem Takes.cons (h : Takes read' ts) (heq : ∀ us, read (t :: us) = read' us) :
    Takes read (t :: ts) := by
  cases h with
  | @ok a front rest split settled =>
      have hsplit : t :: ts = (t :: front) ++ rest := congrArg (t :: ·) split
      refine .ok (a := a) hsplit fun after hafter => ?_
      rw [List.cons_append, heq, settled after hafter]
  | @error err front rest split failed cites =>
      have hsplit : t :: ts = (t :: front) ++ rest := congrArg (t :: ·) split
      refine .error hsplit ((heq ts).trans failed) ?_
      exact cites.mono (List.subset_cons_self t front)

theorem takes_pure (a : α) (ts : List Token) : Takes (fun us => ⟨.ok a, us⟩) ts :=
  .ok (List.nil_append ts).symm fun _ _ => rfl

theorem takes_fail (err : Error) (h : err.Cites []) (ts : List Token) :
    Takes (fun us => (fail err us : Outcome α)) ts :=
  .error (List.nil_append ts).symm rfl h

theorem Takes.map (h : Takes read ts) (f : α → β) : Takes (fun us => (read us).map f) ts := by
  cases h with
  | @ok a front rest split settled =>
      refine .ok (a := f a) split fun after hafter => ?_
      show (read (front ++ after)).map f = _
      rw [settled after hafter, map_ok]
  | error split failed cites => exact .error split (by rw [failed, map_error]) cites

/-- The second reader starts with what the first one left. -/
theorem Takes.andThen {f : α → List Token → Outcome β} (h : Takes read ts)
    (hf : ∀ a rest, read ts = ⟨.ok a, rest⟩ → rest.length ≤ ts.length → Takes (f a) rest) :
    Takes (fun us => (read us).andThen f) ts := by
  cases h with
  | error split failed cites => exact .error split (by rw [failed, andThen_error]) cites
  | @ok a front mid split settled =>
      have hread : read ts = ⟨.ok a, mid⟩ := by rw [split, settled mid rfl]
      have hlen : mid.length ≤ ts.length := by
        rw [split, List.length_append]
        omega
      cases hf a mid hread hlen with
      | @ok b front' rest split' settled' =>
          have hsplit : ts = front ++ front' ++ rest := by
            rw [split, split', List.append_assoc]
          refine .ok (a := b) hsplit fun after hafter => ?_
          have hhead : (front' ++ after).head? = mid.head? := by
            rw [split', List.head?_append, List.head?_append, hafter]
          show (read (front ++ front' ++ after)).andThen f = _
          rw [List.append_assoc, settled _ hhead, andThen_ok, settled' after hafter]
      | @error err front' rest split' failed' cites' =>
          have hsplit : ts = front ++ front' ++ rest := by
            rw [split, split', List.append_assoc]
          refine .error hsplit (by rw [hread, andThen_ok, failed']) ?_
          exact cites'.mono (List.subset_append_right front front')

/-- What goes on in one way behind a token, and in another without it. -/
theorem Takes.optional (after? : List Token → Option (List Token)) {test : Token → Bool}
    {without behind : List Token → Outcome α} (hnil : after? [] = none)
    (hcons : ∀ t us, after? (t :: us) = if test t then some us else none)
    (hwithout : Takes without ts) (hbehind : ∀ rest, after? ts = some rest → Takes behind rest) :
    Takes (fun us => match after? us with
      | none => without us
      | some rest => behind rest) ts := by
  cases ts with
  | nil =>
      refine hwithout.congr fun us hus => ?_
      obtain rfl : us = [] := List.head?_eq_none_iff.mp hus
      simp only [hnil]
  | cons t ts =>
      by_cases htest : test t = true
      · refine (hbehind ts (by rw [hcons, if_pos htest])).cons fun us => ?_
        simp only [hcons, if_pos htest]
      · refine hwithout.congr fun us hus => ?_
        obtain ⟨us, rfl⟩ : ∃ us', us = t :: us' := List.head?_eq_some_iff.mp hus
        simp only [hcons, if_neg htest]

/-- What is left is an end of what there was. -/
theorem Takes.suffix (h : Takes read ts) : (read ts).rest <:+ ts := by
  cases h with
  | ok split settled =>
      rw [split, settled _ rfl]
      exact List.suffix_append _ _
  | error split failed =>
      rw [failed, split]
      exact List.suffix_append _ _

end Takes

variable {ts : List Token} {t : Token} {p n : Nat}

/-! ### Names and separators -/

theorem takes_name (place : String) (ts : List Token) : Takes (parseName place) ts := by
  cases ts with
  | nil => exact .error (List.nil_append []).symm (parseName_nil place) trivial
  | cons t ts =>
      by_cases hkind : t.kind = .identifier
      · refine (takes_pure t.text ts).cons fun us => ?_
        rw [parseName_cons, if_pos hkind]
      · refine (takes_fail (.missingIdentifier (t.render ++ " " ++ place)) trivial ts).cons
          fun us => ?_
        rw [parseName_cons, if_neg hkind]

theorem takes_source (ts : List Token) : Takes parseSource ts := by
  -- The complaint names the next token, which is looked at and not taken.
  have hmissing : Takes (fun us => (fail (.missingKeyword "FROM" (Token.describeNext us)) us :
      Outcome String)) ts :=
    (takes_fail (.missingKeyword "FROM" (Token.describeNext ts)) trivial ts).congr
      fun us hus => by rw [Token.describeNext, hus, Token.describeNext]
  refine (Takes.optional (Token.afterKeyword? "FROM") rfl (fun _ _ => rfl) hmissing
    fun rest _ => takes_name "as table name" rest).congr fun us _ => parseSource_eq us

/-! ### Extensions -/

/-- `Takes` holds of expressions at the front of fewer than `n` tokens. -/
def TakesBelow (n : Nat) : Prop := ∀ ts : List Token, ts.length < n → ∀ p, Takes (parse p) ts

/-- Where an expression has to be, there may be none, and then the input has ended. -/
theorem TakesBelow.demanded {β : Type} (below : TakesBelow n) (hlen : ts.length < n)
    (expectation : String) (f : Ast → β) :
    Takes (fun us => (parse p us).andThen fun e rest =>
      match e with
      | none => fail (.unexpectedEnd expectation) rest
      | some e => ⟨.ok (f e), rest⟩) ts := by
  refine (below ts hlen p).andThen fun found rest _ _ => ?_
  cases found with
  | none => exact takes_fail (.unexpectedEnd expectation) trivial rest
  | some e => exact takes_pure (f e) rest

theorem takes_extension (below : TakesBelow n) (hlen : ts.length ≤ n) (left : Ast) (q : Nat) :
    Takes (parseExtension left q) ts := by
  cases ts with
  | nil => exact .error (List.nil_append []).symm rfl trivial
  | cons t ts =>
      rw [List.length_cons] at hlen
      by_cases hjoin : t.kind = .operator ∨ t.kind = .keyword ∧ (t.text = "AND" ∨ t.text = "OR")
      · refine (below.demanded (p := q) (by omega)
          ("expected expression after '" ++ t.text ++ "'") (.binary left t.text)).cons fun us => ?_
        exact (parseExtension_cons left q t us).trans (if_pos hjoin)
      by_cases has : t.kind = .keyword ∧ t.text = "AS"
      · refine ((takes_name "after AS" ts).map (.renamed left)).cons fun us => ?_
        rw [parseExtension_cons, if_neg hjoin, if_pos has]
      · refine (takes_fail (.unexpectedToken t.render ("after " ++ left.render)) trivial ts).cons
          fun us => ?_
        rw [parseExtension_cons, if_neg hjoin, if_neg has]

theorem takes_extensions (below : TakesBelow n) (hlen : ts.length ≤ n) (left : Ast) (p : Nat) :
    Takes (parseExtensions left p) ts := by
  -- On the number of tokens, which every turn lowers.
  induction hk : ts.length using Nat.strongRecOn generalizing ts left with
  | ind k ih =>
      by_cases hp : p < nextPrecedence ts
      · have hturn : Takes (fun us => (parseExtension left (nextPrecedence ts) us).andThen
            fun longer rest => parseExtensions longer p rest) ts := by
          refine (takes_extension below hlen left _).andThen fun longer rest hlonger _ => ?_
          have hshorter := length_of_parseExtension hlonger
          exact ih rest.length (by omega) (by omega) longer rfl
        refine hturn.congr fun us hus => ?_
        have hnext : nextPrecedence us = nextPrecedence ts := by
          rw [nextPrecedence, hus, nextPrecedence]
        rw [parseExtensions_eq, hnext, if_pos hp]
      · refine (takes_pure left ts).congr fun us hus => ?_
        have hnext : nextPrecedence us = nextPrecedence ts := by
          rw [nextPrecedence, hus, nextPrecedence]
        rw [parseExtensions_eq, hnext, if_neg hp]

/-! ### SELECT -/

theorem takes_items (below : TakesBelow n) (hlen : ts.length < n) : Takes parseItems ts := by
  induction hk : ts.length using Nat.strongRecOn generalizing ts with
  | ind k ih =>
      refine Takes.congr ((below ts hlen 0).andThen fun found rest _ hrest => ?_)
        fun us _ => parseItems_eq us
      cases found with
      | none => exact takes_pure [] rest
      | some item =>
          refine Takes.optional (Token.afterPunctuation? ",") rfl (fun _ _ => rfl)
            (takes_pure [item] rest) fun more hmore => ?_
          have hshorter := Token.length_of_afterPunctuation? hmore
          exact (ih more.length (by omega) (by omega) rfl).map (item :: ·)

theorem takes_selectBody (below : TakesBelow n) (hlen : ts.length < n) :
    Takes parseSelectBody ts := by
  refine Takes.congr ((takes_items below hlen).andThen fun projection rest _ hrest => ?_)
    fun us _ => parseSelectBody_eq us
  refine (takes_source rest).andThen fun table rest' _ hrest' => ?_
  refine Takes.optional (Token.afterKeyword? "WHERE") rfl (fun _ _ => rfl)
    (takes_pure _ rest') fun more hmore => ?_
  have hshorter := Token.length_of_afterKeyword? hmore
  exact below.demanded (by omega) _ _

/-! ### All expressions -/

/-- The value of a literal, or the complaint that it has none. -/
theorem takes_literal {γ : Type} {kind : String} {value : Option γ} (f : γ → Ast)
    (heq : ∀ us, parseOperand (t :: us) =
      match value with
      | some v => ⟨.ok (some (f v)), us⟩
      | none => fail (.invalidLiteral kind t.text) us)
    (hnone : value = none → t.Unreadable kind) : Takes parseOperand (t :: ts) := by
  cases value with
  | some v => exact (takes_pure (some (f v)) ts).cons heq
  | none =>
      have hsplit : t :: ts = [t] ++ ts := rfl
      exact .error hsplit (heq ts) ⟨t, List.mem_singleton_self t, rfl, hnone rfl⟩

theorem takes_operand (below : TakesBelow n) (hlen : ts.length ≤ n) : Takes parseOperand ts := by
  cases ts with
  | nil =>
      refine (takes_pure none []).congr fun us hus => ?_
      rw [List.head?_eq_none_iff.mp hus]
      rfl
  | cons t ts =>
      rw [List.length_cons] at hlen
      obtain ⟨kind, text⟩ := t
      have hmisplaced : Takes (fun us => (fail (.unexpectedToken (⟨kind, text⟩ : Token).render
          "at start of expression") us : Outcome (Option Ast))) ts :=
        takes_fail (.unexpectedToken _ "at start of expression") trivial ts
      cases kind with
      | identifier =>
          exact (takes_pure (some (.identifier text)) ts).cons fun us => parseOperand_cons _ us
      | string => exact (takes_pure (some (.string text)) ts).cons fun us => parseOperand_cons _ us
      | long =>
          refine takes_literal .long (fun us => ?_) fun h => Or.inl ⟨rfl, rfl, h⟩
          rw [parseOperand_cons]
          cases Numeral.long? text.toList <;> rfl
      | double =>
          refine takes_literal .double (fun us => ?_) fun h => Or.inr ⟨rfl, rfl, h⟩
          rw [parseOperand_cons]
          cases Double.ofText? text.toList <;> rfl
      | keyword =>
          by_cases hselect : text = "SELECT"
          · refine ((takes_selectBody below (by omega)).map fun s => some s.toAst).cons
              fun us => ?_
            rw [parseOperand_cons]
            simp only [if_pos hselect]
          · refine hmisplaced.cons fun us => ?_
            rw [parseOperand_cons]
            simp only [if_neg hselect]
      | operator | punctuation => exact hmisplaced.cons fun us => parseOperand_cons _ us

/-- Reading takes an expression from the front, however many tokens there are. -/
theorem takesBelow (n : Nat) : TakesBelow n := by
  induction n with
  | zero =>
      intro ts hlen
      omega
  | succ n ih =>
      intro ts hlen p
      refine Takes.congr ((takes_operand ih (by omega)).andThen fun found rest _ hrest => ?_)
        fun us _ => parse_eq p us
      cases found with
      | none => exact takes_pure none rest
      | some left => exact (takes_extensions ih (by omega) left p).map some

theorem takes_parse (p : Nat) (ts : List Token) : Takes (parse p) ts :=
  takesBelow (ts.length + 1) ts (Nat.lt_succ_self _) p

/-- **One token of lookahead.**  What stands behind the first token that was left has no part in what
was read: whatever it is exchanged for, the same expression is read and the same token is next. -/
theorem parse_looks_ahead_once {p : Nat} {e : Ast} {front rest : List Token} {t : Token}
    (h : parse p (front ++ t :: rest) = ⟨.ok (some e), t :: rest⟩) (rest' : List Token) :
    parse p (front ++ t :: rest') = ⟨.ok (some e), t :: rest'⟩ := by
  cases takes_parse p (front ++ t :: rest) with
  | error _ failed =>
      rw [h] at failed
      cases failed
  | @ok found front' left split settled =>
      have hread := settled left rfl
      rw [← split, h] at hread
      obtain ⟨rfl, rfl⟩ : some e = found ∧ t :: rest = left := by simpa using hread
      obtain rfl := List.append_cancel_right split
      exact settled (t :: rest') rfl

/-- A statement in front of a semicolon is read without regard to what comes behind it, even if that
could not be read. -/
theorem parse_looks_ahead_once_nested :
    parse 0 (nestedQueryTokens ++ ⟨.punctuation, ";"⟩ :: []) =
        ⟨.ok (some nestedQuery), ⟨.punctuation, ";"⟩ :: []⟩ ∧
      parse 0 (nestedQueryTokens ++ ⟨.punctuation, ";"⟩ :: [⟨.keyword, "FROM"⟩]) =
        ⟨.ok (some nestedQuery), ⟨.punctuation, ";"⟩ :: [⟨.keyword, "FROM"⟩]⟩ := by
  have hread : parse 0 (nestedQueryTokens ++ ⟨.punctuation, ";"⟩ :: []) =
      ⟨.ok (some nestedQuery), ⟨.punctuation, ";"⟩ :: []⟩ :=
    (completeBelow _).parse_zero (Nat.lt_succ_self _) flattens_nestedQuery canonical_nestedQuery
      rfl rfl
  exact ⟨hread, parse_looks_ahead_once hread [⟨.keyword, "FROM"⟩]⟩

end Parser

end SelectPlanner
