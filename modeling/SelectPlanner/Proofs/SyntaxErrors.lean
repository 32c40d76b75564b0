/-
The parser goes along with the machine, and fails where the machine is stuck.

`Follows` says of an outcome what becomes of the machine: a success consumed tokens that lead the
machine on, to a state that fits what is left; and an error is about the token at which the machine
is stuck, or about the end of the input where no statement may end.  The readers are put together
by `andThen`, and so are these statements about them.

An expression that was read may end with the table of a SELECT, and then a condition could follow.
None does, for the parser has looked: that is the second half of `Ended`, without which the machine
would go on at a WHERE at which the parser stops.
-/
import Mathlib
import SelectPlanner.Ast.Parser.Lemmas
import SelectPlanner.Proofs.TokenMachine
import SelectPlanner.Statement

namespace SelectPlanner

open Machine Machine.State
open Token (nextPrecedence)

/-! ### What an error is about -/

namespace Error

/-- The places of identifiers, as messages name them. -/
def namePlaces : List String := ["as table name", "after AS"]

/-- The error is about the end of the input. -/
def ReportsEnd : Error → Prop
  | unexpectedEnd _ => True
  | missingKeyword _ found => found = "end of input"
  | missingIdentifier found => ∃ place ∈ namePlaces, found = "end of input " ++ place
  | _ => False

/-- The error is about this token. -/
def Names (t : Token) : Error → Prop
  | unexpectedToken token _ => token = t.render
  | missingKeyword _ found => found = t.render
  | missingIdentifier found => ∃ place ∈ namePlaces, found = t.render ++ " " ++ place
  | invalidLiteral _ text => text = t.text
  | _ => False

/-- The error is about the first token at which the machine is stuck, or else about the end. -/
inductive Blames (err : Error) : State → List Token → Prop where
  | atEnd {s : State} (unfinished : ¬ s.Accepting) (h : err.ReportsEnd) : Blames err s []
  | here {s : State} {t : Token} {ts : List Token} (stuck : s.step t = none) (h : err.Names t) :
      Blames err s (t :: ts)
  | later {s s' : State} {t : Token} {ts : List Token} (hstep : s.step t = some s')
      (h : Blames err s' ts) : Blames err s (t :: ts)

theorem Blames.append {err : Error} {s s' : State} {front rest : List Token}
    (hrun : s.run front = some s') (h : Blames err s' rest) : Blames err s (front ++ rest) := by
  induction front generalizing s with
  | nil =>
      cases hrun
      exact h
  | cons t front ih =>
      obtain ⟨mid, hstep, hrun⟩ := Option.bind_eq_some_iff.mp hrun
      exact .later hstep (ih hrun)

/-- The tokens split where the machine is stuck. -/
theorem Blames.exists_split {err : Error} {s : State} {ts : List Token} (h : Blames err s ts) :
    ∃ pre post s', ts = pre ++ post ∧ s.run pre = some s' ∧
      (post = [] ∧ ¬ s'.Accepting ∧ err.ReportsEnd ∨
        ∃ t rest, post = t :: rest ∧ s'.step t = none ∧ err.Names t) := by
  induction h with
  | @atEnd s unfinished h => exact ⟨[], [], s, rfl, rfl, Or.inl ⟨rfl, unfinished, h⟩⟩
  | @here s t ts stuck h => exact ⟨[], t :: ts, s, rfl, rfl, Or.inr ⟨t, ts, rfl, stuck, h⟩⟩
  | @later s mid t ts hstep h ih =>
      obtain ⟨pre, post, s', rfl, hrun, hpost⟩ := ih
      exact ⟨t :: pre, post, s', rfl, by rw [run_cons hstep, hrun], hpost⟩

end Error

namespace Parser

/-! ### Outcomes and the machine -/

section Follows

variable {α β : Type} {Q : α → State → List Token → Prop} {s s' : State} {t : Token}
  {ts : List Token} {o : Outcome α}

/-- The machine goes along with an outcome, from `s` in front of `ts`; `Q` is about where it gets
to, in front of what is left. -/
inductive Follows (Q : α → State → List Token → Prop) (s : State) (ts : List Token) :
    Outcome α → Prop where
  | ok {a : α} {s' : State} {front rest : List Token} (consumed : ts = front ++ rest)
      (hrun : s.run front = some s') (h : Q a s' rest) : Follows Q s ts ⟨.ok a, rest⟩
  | error {err : Error} {rest : List Token} (h : err.Blames s ts) :
      Follows Q s ts ⟨.error err, rest⟩

theorem Follows.pure {a : α} (h : Q a s ts) : Follows Q s ts ⟨.ok a, ts⟩ :=
  .ok (List.nil_append ts).symm rfl h

theorem Follows.cons (hstep : s.step t = some s') (h : Follows Q s' ts o) :
    Follows Q s (t :: ts) o := by
  cases h with
  | ok consumed hrun h =>
      exact .ok (congrArg (t :: ·) consumed) (by rw [run_cons hstep, hrun]) h
  | error h => exact .error (.later hstep h)

theorem length_le {front rest : List Token} (consumed : ts = front ++ rest) :
    rest.length ≤ ts.length := by
  rw [consumed, List.length_append]
  omega

theorem Follows.map {f : α → β} {R : β → State → List Token → Prop} (h : Follows Q s ts o)
    (hf : ∀ a s' rest, rest.length ≤ ts.length → Q a s' rest → R (f a) s' rest) :
    Follows R s ts (o.map f) := by
  cases h with
  | ok consumed hrun h => exact .ok consumed hrun (hf _ _ _ (length_le consumed) h)
  | error h => exact .error h

theorem Follows.andThen {f : α → List Token → Outcome β} {R : β → State → List Token → Prop}
    (h : Follows Q s ts o)
    (hf : ∀ a s' rest, rest.length ≤ ts.length → Q a s' rest → Follows R s' rest (f a rest)) :
    Follows R s ts (o.andThen f) := by
  cases h with
  | error h => exact .error h
  | @ok a s' front rest consumed hrun h =>
      rw [andThen_ok]
      generalize hnext : f a rest = next
      have follows := hf a s' rest (length_le consumed) h
      rw [hnext] at follows
      cases follows with
      | error h' =>
          rw [consumed]
          exact .error (h'.append hrun)
      | @ok b s'' front' rest' consumed' hrun' h' =>
          have hsplit : ts = front ++ front' ++ rest' := by
            rw [consumed, consumed', List.append_assoc]
          exact .ok hsplit (by rw [run_append hrun, hrun']) h'

end Follows

/-! ### Names and operands -/

variable {s s' : State} {t : Token} {ts rest : List Token} {d p n : Nat}

theorem follows_name {place : String} (hstep : ∀ t : Token, s.step t =
      if t.kind = .identifier then some s' else none)
    (unfinished : ¬ s.Accepting) (hplace : place ∈ Error.namePlaces) :
    Follows (fun _ next _ => next = s') s ts (parseName place ts) := by
  cases ts with
  | nil =>
      rw [parseName_nil]
      exact .error (.atEnd unfinished ⟨place, hplace, rfl⟩)
  | cons t ts =>
      rw [parseName_cons]
      by_cases hkind : t.kind = .identifier
      · rw [if_pos hkind]
        refine .cons ?_ (.pure rfl)
        rw [hstep, if_pos hkind]
      · rw [if_neg hkind]
        refine .error (.here ?_ ⟨place, hplace, rfl⟩)
        rw [hstep, if_neg hkind]

/-- An expression ends here, and what comes next is no condition of a SELECT at its end. -/
structure Ended (d : Nat) (s : State) (rest : List Token) : Prop where
  behind : s.Behind d
  unconditional : s = .source d → Token.afterKeyword? "WHERE" rest = none

theorem Ended.step_eq (h : Ended d s (t :: rest)) : s.step t = onward d t := by
  rcases h.behind with rfl | rfl
  · rfl
  · refine Behind.step_eq (Or.inr rfl) ?_
    have hnone := h.unconditional rfl
    by_contra hwhere
    rw [Token.afterKeyword?, if_pos (by simpa using hwhere)] at hnone
    cases hnone

theorem ended_value : Ended d (.value d) rest := ⟨Or.inl rfl, nofun⟩

/-- What reading an expression comes to: nothing at the end of the input, and else an expression in
front of a token that binds no more tightly than `p`. -/
inductive Finish (d p : Nat) : Option Ast → State → List Token → Prop where
  | nothing : Finish d p none (.operand d) []
  | expression {e : Ast} {s : State} {rest : List Token} (ended : Ended d s rest)
      (stopped : nextPrecedence rest ≤ p) : Finish d p (some e) s rest

/-- The machine goes along with expressions at the front of fewer than `n` tokens. -/
def FollowsBelow (n : Nat) : Prop :=
  ∀ ts : List Token, ts.length < n → ∀ p d, Follows (Finish d p) (.operand d) ts (parse p ts)

/-- Where an expression has to be, the end of the input is to blame for there being none. -/
theorem FollowsBelow.demanded {β : Type} (below : FollowsBelow n) (hlen : ts.length < n)
    (expectation : String) (f : Ast → β) :
    Follows (fun _ => Ended d) (.operand d) ts ((parse p ts).andThen fun e rest =>
      match e with
      | none => fail (.unexpectedEnd expectation) rest
      | some e => ⟨.ok (f e), rest⟩) := by
  refine (below ts hlen p d).andThen ?_
  intro e s rest _ hfinish
  cases hfinish with
  | nothing => exact .error (.atEnd id trivial)
  | expression ended stopped => exact .pure ended

/-! ### Extensions -/

/-- What extends an expression starts with a token that the machine takes. -/
theorem follows_extension (below : FollowsBelow n) (hlen : ts.length < n) (left : Ast)
    (ended : Ended d s (t :: ts)) (hpos : 0 < t.precedence) :
    ∃ next, s.step t = some next ∧ Follows (fun _ => Ended d) next ts
      (parseExtension left t.precedence (t :: ts)) := by
  rw [parseExtension_cons, ended.step_eq]
  unfold onward
  rcases Token.isInfix_or_asWord hpos with hjoin | rfl
  · refine ⟨.operand d, by rw [if_neg (Token.ne_asWord_of_isInfix hjoin), if_pos hpos], ?_⟩
    unfold Token.IsInfix at hjoin
    rw [if_pos hjoin]
    exact below.demanded hlen _ _
  · refine ⟨.name d, if_pos rfl, ?_⟩
    rw [if_neg (by decide), if_pos (by decide)]
    refine (follows_name (fun t => rfl) id (by decide)).map ?_
    intro name s' rest _ hs'
    subst hs'
    exact ended_value

theorem follows_extensions (below : FollowsBelow n) (hlen : ts.length ≤ n) (left : Ast)
    (ended : Ended d s ts) : Follows (fun _ s rest => Ended d s rest ∧ nextPrecedence rest ≤ p) s ts
      (parseExtensions left p ts) := by
  -- On the number of tokens, which every turn lowers.
  induction hk : ts.length using Nat.strongRecOn generalizing s ts left with
  | ind k ih =>
      rw [parseExtensions_eq]
      by_cases hp : p < nextPrecedence ts
      · rw [if_pos hp]
        cases ts with
        | nil => exact absurd hp (Nat.not_lt_zero p)
        | cons t ts =>
            rw [List.length_cons] at hk hlen
            obtain ⟨next, hstep, hturn⟩ :=
              follows_extension below (by omega) left ended (Nat.zero_lt_of_lt hp)
            refine .cons hstep (hturn.andThen ?_)
            intro longer s' rest hrest ended'
            exact ih rest.length (by omega) (by omega) longer ended' rfl
      · rw [if_neg hp]
        exact .pure ⟨ended, by omega⟩

/-! ### SELECT -/

/-- A SELECT list ends where no comma follows, or with a comma at the end of the input. -/
inductive ItemsFinish (d : Nat) : State → List Token → Prop where
  | atEnd : ItemsFinish d (.operand d) []
  | listed {s : State} {rest : List Token} (ended : Ended d s rest)
      (stopped : nextPrecedence rest = 0) (noComma : Token.afterPunctuation? "," rest = none) :
      ItemsFinish d s rest

theorem follows_items (below : FollowsBelow n) (hlen : ts.length < n) :
    Follows (fun _ => ItemsFinish (d + 1)) (.operand (d + 1)) ts (parseItems ts) := by
  induction hk : ts.length using Nat.strongRecOn generalizing ts with
  | ind k ih =>
      rw [parseItems_eq]
      refine (below ts hlen 0 (d + 1)).andThen ?_
      intro e s rest hrest hfinish
      cases hfinish with
      | nothing => exact .pure .atEnd
      | @expression item _ _ ended stopped =>
          cases rest with
          | nil => exact .pure (.listed ended rfl rfl)
          | cons t rest =>
              have hzero : t.precedence = 0 := Nat.le_zero.mp stopped
              by_cases hcomma : t.isPunctuation "," = true
              · have hstep : s.step t = some (.operand (d + 1)) := by
                  rw [ended.step_eq, onward_succ hzero, if_pos hcomma]
                simp only [Token.afterPunctuation?, if_pos hcomma]
                rw [List.length_cons] at hrest
                refine .cons hstep ((ih rest.length (by omega) (by omega) rfl).map ?_)
                exact fun _ _ _ _ h => h
              · simp only [Token.afterPunctuation?, if_neg hcomma]
                refine .pure (.listed ended hzero ?_)
                rw [Token.afterPunctuation?, if_neg hcomma]

theorem follows_source (hfinish : ItemsFinish (d + 1) s rest) :
    Follows (fun _ next _ => next = .source d) s rest (parseSource rest) := by
  rw [parseSource_eq]
  cases hfinish with
  | atEnd => exact .error (.atEnd id rfl)
  | listed ended stopped noComma =>
      cases rest with
      | nil =>
          have unfinished : ¬ s.Accepting := by
            rcases ended.behind with rfl | rfl <;> exact id
          exact .error (.atEnd unfinished rfl)
      | cons t rest =>
          have hcomma : ¬ t.isPunctuation "," = true := by
            intro hcomma
            rw [Token.afterPunctuation?, if_pos hcomma] at noComma
            cases noComma
          have hstep : s.step t = if t.isKeyword "FROM" then some (.table d) else none := by
            rw [ended.step_eq, onward_succ stopped, if_neg hcomma]
          by_cases hfrom : t.isKeyword "FROM" = true
          · simp only [Token.afterKeyword?, if_pos hfrom]
            rw [if_pos hfrom] at hstep
            exact .cons hstep (follows_name (fun t => rfl) id (by decide))
          · simp only [Token.afterKeyword?, if_neg hfrom]
            rw [if_neg hfrom] at hstep
            exact .error (.here hstep rfl)

theorem follows_selectBody (below : FollowsBelow n) (hlen : ts.length < n) :
    Follows (fun _ => Ended d) (.operand (d + 1)) ts (parseSelectBody ts) := by
  rw [parseSelectBody_eq]
  refine (follows_items below hlen).andThen ?_
  intro projection s rest hrest hfinish
  refine (follows_source hfinish).andThen ?_
  intro table s rest' hrest' hs
  subst hs
  cases rest' with
  | nil => exact .pure ⟨Or.inr rfl, fun _ => rfl⟩
  | cons t rest' =>
      rw [List.length_cons] at hrest'
      by_cases hwhere : t.isKeyword "WHERE" = true
      · have hstep : (State.source d).step t = some (.operand d) := if_pos hwhere
        simp only [Token.afterKeyword?, if_pos hwhere]
        exact .cons hstep (below.demanded (by omega) _ _)
      · have hnone : Token.afterKeyword? "WHERE" (t :: rest') = none := if_neg hwhere
        simp only [hnone]
        exact .pure ⟨Or.inr rfl, fun _ => hnone⟩

/-! ### All expressions -/

theorem follows_operand (below : FollowsBelow n) (hlen : ts.length < n) (t : Token) :
    Follows (fun e s rest => ∃ left, e = some left ∧ rest.length < n ∧ Ended d s rest) (.operand d)
      (t :: ts) (parseOperand (t :: ts)) := by
  obtain ⟨kind, text⟩ := t
  rw [parseOperand_cons]
  cases kind with
  | identifier => exact .cons rfl (.pure ⟨_, rfl, hlen, ended_value⟩)
  | string => exact .cons rfl (.pure ⟨_, rfl, hlen, ended_value⟩)
  | long =>
      cases hvalue : Numeral.long? text.toList with
      | none =>
          exact .error (.here (step_operand_eq_none d (by simp [Token.isLeaf, hvalue]) nofun) rfl)
      | some value =>
          refine .cons (step_leaf d (by simp [Token.isLeaf, hvalue])) (.pure ?_)
          exact ⟨_, rfl, hlen, ended_value⟩
  | double =>
      cases hvalue : Double.ofText? text.toList with
      | none =>
          exact .error (.here (step_operand_eq_none d (by simp [Token.isLeaf, hvalue]) nofun) rfl)
      | some value =>
          refine .cons (step_leaf d (by simp [Token.isLeaf, hvalue])) (.pure ?_)
          exact ⟨_, rfl, hlen, ended_value⟩
  | keyword =>
      by_cases hselect : text = "SELECT"
      · subst hselect
        simp only [if_pos]
        refine .cons rfl ((follows_selectBody below hlen).map ?_)
        intro s' _ rest hrest ended
        exact ⟨s'.toAst, rfl, by omega, ended⟩
      · simp only [if_neg hselect]
        have hnot : (⟨.keyword, text⟩ : Token) ≠ ⟨.keyword, "SELECT"⟩ := by
          rintro ⟨⟩
          exact hselect rfl
        exact .error (.here (step_operand_eq_none d rfl hnot) rfl)
  | operator | punctuation => exact .error (.here rfl rfl)

/-- The machine goes along with every expression, however many tokens there are. -/
theorem followsBelow (n : Nat) : FollowsBelow n := by
  induction n with
  | zero =>
      intro ts hlen
      omega
  | succ n ih =>
      intro ts hlen p d
      cases ts with
      | nil => exact .pure .nothing
      | cons t ts =>
          rw [List.length_cons] at hlen
          rw [parse_eq]
          refine (follows_operand ih (by omega) t).andThen ?_
          rintro _ s rest _ ⟨left, rfl, hrest, ended⟩
          refine (follows_extensions ih (by omega) left ended).map ?_
          intro e s' rest' _ h
          exact .expression h.1 h.2

end Parser

/-! ### Statements -/

variable {s : State} {rest : List Token}

/-- What the machine makes of what is left behind the expression of a statement. -/
theorem follows_end (ended : Parser.Ended 0 s rest) (stopped : nextPrecedence rest = 0) :
    match (Token.afterPunctuation? ";" rest).getD rest with
    | [] => ∃ s', s.run rest = some s' ∧ s'.Accepting
    | t :: _ => Error.Blames (.unexpectedToken t.render "after end of statement") s rest := by
  cases rest with
  | nil =>
      refine ⟨s, rfl, ?_⟩
      rcases ended.behind with rfl | rfl <;> exact trivial
  | cons t rest =>
      have hstep : s.step t = if t.isPunctuation ";" then some .closed else none := by
        rw [ended.step_eq, onward_zero stopped]
      by_cases hclose : t.isPunctuation ";" = true
      · rw [if_pos hclose] at hstep
        simp only [Token.afterPunctuation?, if_pos hclose, Option.getD_some]
        cases rest with
        | nil => exact ⟨.closed, run_cons hstep, trivial⟩
        | cons u rest => exact .later hstep (.here rfl rfl)
      · rw [if_neg hclose] at hstep
        simp only [Token.afterPunctuation?, if_neg hclose, Option.getD_none]
        exact .here hstep rfl

/-- A statement leads the machine from where an expression is due to where it accepts. -/
theorem ofTokens_follows (ts : List Token) :
    match Ast.ofTokens ts with
    | .ok _ => ∃ s, (State.operand 0).run ts = some s ∧ s.Accepting
    | .error err => err.Blames (.operand 0) ts := by
  have follows := Parser.followsBelow (ts.length + 1) ts (Nat.lt_succ_self _) 0 0
  unfold Ast.ofTokens
  generalize Parser.parse 0 ts = o at follows
  cases follows with
  | error h => exact h
  | @ok e s front rest consumed hrun hfinish =>
      subst consumed
      cases hfinish with
      | nothing => exact Error.Blames.append hrun (.atEnd id trivial)
      | @expression e _ _ ended stopped =>
          have hend := follows_end ended (Nat.le_zero.mp stopped)
          dsimp only
          cases hleft : (Token.afterPunctuation? ";" rest).getD rest with
          | nil =>
              rw [hleft] at hend
              obtain ⟨s', hrun', hs'⟩ := hend
              exact ⟨s', by rw [run_append hrun, hrun'], hs'⟩
          | cons t after =>
              rw [hleft] at hend
              exact hend.append hrun

/-- What the error is about keeps the machine from accepting. -/
theorem Error.Blames.not_accepting {err : Error} {s s' : State} {ts : List Token}
    (h : err.Blames s ts) (hrun : s.run ts = some s') : ¬ s'.Accepting := by
  induction h with
  | atEnd unfinished =>
      cases hrun
      exact unfinished
  | here stuck =>
      rw [run, stuck] at hrun
      cases hrun
  | later hstep _ ih =>
      rw [run_cons hstep] at hrun
      exact ih hrun

/-- The parser accepts what the machine accepts. -/
theorem Ast.exists_ofTokens_iff {ts : List Token} : (∃ e, Ast.ofTokens ts = .ok e) ↔
    ∃ s, (State.operand 0).run ts = some s ∧ s.Accepting := by
  have follows := ofTokens_follows ts
  cases hresult : Ast.ofTokens ts with
  | ok e =>
      rw [hresult] at follows
      exact ⟨fun _ => follows, fun _ => ⟨e, rfl⟩⟩
  | error err =>
      rw [hresult] at follows
      constructor
      · rintro ⟨e, ⟨⟩⟩
      · rintro ⟨s, hrun, hs⟩
        exact absurd hs (follows.not_accepting hrun)

theorem Ast.blames_of_ofTokens {ts : List Token} {err : Error} (h : Ast.ofTokens ts = .error err) :
    err.Blames (.operand 0) ts := by
  have follows := ofTokens_follows ts
  rwa [h] at follows

end SelectPlanner
