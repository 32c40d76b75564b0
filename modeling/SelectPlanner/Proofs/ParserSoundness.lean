/-
What is read is what was written, bracketed as precedence asks for.

The proof follows the reading.  `Reached` is the invariant of the loop that extends an expression:
besides the shape of what was read so far it says how that relates to the next token, which is
where the shape of the larger expressions comes from.  A token that continues the expression binds
no more tightly than the operator at its root, and none continues it behind a condition.
`reached_extension` is one turn of the loop and `reached_extensions` all of them.

Expressions, SELECT lists and statements are read in terms of one another, so all of this is proved
under the hypothesis `SoundBelow`, that expressions at the front of fewer tokens are read soundly;
`soundBelow` discharges it by induction on their number.
-/
import Mathlib
import SelectPlanner.Ast.Parser.Lemmas
import SelectPlanner.Proofs.Bracketing

namespace SelectPlanner.Parser

open Token (nextPrecedence)

/-- An expression that was read before these tokens, when operators have to bind more tightly than
`p`. -/
structure Reached (p : Nat) (e : Ast) (rest : List Token) : Prop where
  /-- What holds it together binds as tightly as was asked for. -/
  tight : ∀ t ∈ e.spine, p < t.precedence
  bracketed : e.Bracketed
  /-- What comes next does not belong to the right operand of its root. -/
  grouped : e.Binds (nextPrecedence rest)
  /-- A condition at its end has taken all that continues an expression. -/
  closed : e.endsInWhere = true → nextPrecedence rest = 0

/-- Reading an expression at the front of `ts` left `rest`, and rightly so. -/
structure Sound (p : Nat) (ts : List Token) (e : Ast) (rest : List Token) : Prop
    extends Reached p e rest where
  /-- The tokens that were consumed are those of the expression. -/
  consumed : ∃ front, ts = front ++ rest ∧ e.Flattens front
  /-- The next token does not belong to it. -/
  stopped : nextPrecedence rest ≤ p

/-- Expressions at the front of fewer than `n` tokens are read soundly. -/
def SoundBelow (n : Nat) : Prop :=
  ∀ ts : List Token, ts.length < n → (∀ t ∈ ts, t.Spelt) →
    ∀ p e rest, parse p ts = ⟨.ok (some e), rest⟩ → Sound p ts e rest

/-! ### What a result tells of the tokens -/

variable {ts rest : List Token} {p q n : Nat}

theorem parseName_eq_ok {place name : String} (h : parseName place ts = ⟨.ok name, rest⟩) :
    ts = ⟨.identifier, name⟩ :: rest := by
  cases ts with
  | nil =>
      rw [parseName_nil] at h
      exact absurd h fail_ne_ok
  | cons t ts =>
      rw [parseName_cons] at h
      by_cases hkind : t.kind = .identifier
      · rw [if_pos hkind] at h
        obtain ⟨kind, text⟩ := t
        obtain rfl : kind = .identifier := hkind
        injection h with hname hrest
        obtain rfl : text = name := Except.ok.inj hname
        rw [hrest]
      · rw [if_neg hkind] at h
        exact absurd h fail_ne_ok

theorem parseSource_eq_ok {table : String} (hts : ∀ t ∈ ts, t.Spelt)
    (h : parseSource ts = ⟨.ok table, rest⟩) :
    ts = ⟨.keyword, "FROM"⟩ :: ⟨.identifier, table⟩ :: rest := by
  rw [parseSource_eq] at h
  cases hfrom : Token.afterKeyword? "FROM" ts with
  | none =>
      rw [hfrom] at h
      exact absurd h fail_ne_ok
  | some mid =>
      rw [hfrom] at h
      rw [Token.eq_of_afterKeyword? hts (by decide) hfrom, parseName_eq_ok h]

/-- An expression grows by an operator and its right operand, or by a new name. -/
theorem parseExtension_eq_ok {left longer : Ast} {t : Token}
    (h : parseExtension left q (t :: ts) = ⟨.ok longer, rest⟩) :
    (t.IsInfix ∧ ∃ right, parse q ts = ⟨.ok (some right), rest⟩ ∧
        longer = .binary left t.text right) ∨
      t = Token.asWord ∧ ∃ name, ts = ⟨.identifier, name⟩ :: rest ∧
        longer = .renamed left name := by
  rw [parseExtension_cons] at h
  split at h
  · rename_i hjoin
    obtain ⟨found, mid, hright, h⟩ := Outcome.andThen_eq_ok.mp h
    cases found with
    | none => exact absurd h fail_ne_ok
    | some right =>
        injection h with hlonger hmid
        obtain rfl := hmid
        exact Or.inl ⟨hjoin, right, hright, (Except.ok.inj hlonger).symm⟩
  · split at h
    · rename_i has
      obtain ⟨name, hname, rfl⟩ := Outcome.map_eq_ok.mp h
      obtain ⟨kind, text⟩ := t
      obtain ⟨rfl, rfl⟩ := has
      exact Or.inr ⟨rfl, name, parseName_eq_ok hname, rfl⟩
    · exact absurd h fail_ne_ok

/-- An operand is a name, a literal, or a SELECT. -/
theorem parseOperand_eq_ok {e : Ast} (h : parseOperand ts = ⟨.ok (some e), rest⟩) :
    (e.Leaf ∧ ∃ t, ts = t :: rest ∧ e.Flattens [t]) ∨
      ∃ mid s, ts = ⟨.keyword, "SELECT"⟩ :: mid ∧ parseSelectBody mid = ⟨.ok s, rest⟩ ∧
        e = s.toAst := by
  cases ts with
  | nil => cases h
  | cons t ts =>
      obtain ⟨kind, text⟩ := t
      rw [parseOperand_cons] at h
      cases kind with
      | identifier =>
          cases h
          exact Or.inl ⟨trivial, _, rfl, .identifier text⟩
      | string =>
          cases h
          exact Or.inl ⟨trivial, _, rfl, .string text⟩
      | long =>
          cases hvalue : Numeral.long? text.toList with
          | none => simp [hvalue, fail] at h
          | some value =>
              simp only [hvalue] at h
              cases h
              exact Or.inl ⟨trivial, _, rfl, .long hvalue⟩
      | double =>
          cases hvalue : Double.ofText? text.toList with
          | none => simp [hvalue, fail] at h
          | some value =>
              simp only [hvalue] at h
              cases h
              exact Or.inl ⟨trivial, _, rfl, .double hvalue⟩
      | keyword =>
          by_cases hselect : text = "SELECT"
          · subst hselect
            obtain ⟨s, hs, he⟩ := Outcome.map_eq_ok.mp h
            exact Or.inr ⟨ts, s, rfl, hs, (Option.some.inj he).symm⟩
          · simp only [if_neg hselect] at h
            exact absurd h fail_ne_ok
      | operator | punctuation => exact absurd h fail_ne_ok

theorem parseSelectBody_eq_ok {s : Select} (h : parseSelectBody ts = ⟨.ok s, rest⟩) :
    ∃ fromOn whereOn, parseItems ts = ⟨.ok s.projection, fromOn⟩ ∧
      parseSource fromOn = ⟨.ok s.table, whereOn⟩ ∧
      (Token.afterKeyword? "WHERE" whereOn = none ∧ s.selection = none ∧ whereOn = rest ∨
        ∃ mid c, Token.afterKeyword? "WHERE" whereOn = some mid ∧ s.selection = some c ∧
          parse 0 mid = ⟨.ok (some c), rest⟩) := by
  rw [parseSelectBody_eq] at h
  obtain ⟨projection, fromOn, hitems, h⟩ := Outcome.andThen_eq_ok.mp h
  obtain ⟨table, whereOn, hsource, h⟩ := Outcome.andThen_eq_ok.mp h
  cases hwhere : Token.afterKeyword? "WHERE" whereOn with
  | none =>
      rw [hwhere] at h
      cases h
      exact ⟨fromOn, rest, hitems, hsource, Or.inl ⟨hwhere, rfl, rfl⟩⟩
  | some mid =>
      rw [hwhere] at h
      obtain ⟨found, after, hparse, h⟩ := Outcome.andThen_eq_ok.mp h
      cases found with
      | none => exact absurd h fail_ne_ok
      | some c =>
          cases h
          exact ⟨fromOn, whereOn, hitems, hsource, Or.inr ⟨mid, c, hwhere, rfl, hparse⟩⟩

theorem parse_eq_none (h : parse p ts = ⟨.ok none, rest⟩) : rest = [] := by
  cases ts with
  | nil =>
      cases h
      rfl
  | cons t ts =>
      obtain ⟨e, -, he⟩ := Outcome.map_eq_ok.mp h
      cases he

theorem parse_eq_some {e : Ast} (h : parse p ts = ⟨.ok (some e), rest⟩) :
    ∃ left mid, parseOperand ts = ⟨.ok (some left), mid⟩ ∧
      parseExtensions left p mid = ⟨.ok e, rest⟩ := by
  rw [parse_eq] at h
  obtain ⟨found, mid, hoperand, h⟩ := Outcome.andThen_eq_ok.mp h
  cases found with
  | none => cases h
  | some left =>
      obtain ⟨e', hextensions, he⟩ := Outcome.map_eq_ok.mp h
      obtain rfl := Option.some.inj he
      exact ⟨left, mid, hoperand, hextensions⟩

/-- The loop stops in front of a token that binds too loosely, and else takes one turn more. -/
theorem parseExtensions_eq_ok {left e : Ast} (h : parseExtensions left p ts = ⟨.ok e, rest⟩) :
    (nextPrecedence ts ≤ p ∧ e = left ∧ rest = ts) ∨
      p < nextPrecedence ts ∧ ∃ longer mid,
        parseExtension left (nextPrecedence ts) ts = ⟨.ok longer, mid⟩ ∧
        parseExtensions longer p mid = ⟨.ok e, rest⟩ := by
  rw [parseExtensions_eq] at h
  by_cases hp : p < nextPrecedence ts
  · rw [if_pos hp] at h
    exact Or.inr ⟨hp, Outcome.andThen_eq_ok.mp h⟩
  · rw [if_neg hp] at h
    cases h
    exact Or.inl ⟨by omega, rfl, rfl⟩

/-- A SELECT list ends at the end of the input, or with an item that no comma follows. -/
theorem parseItems_eq_ok {items : List Ast} (h : parseItems ts = ⟨.ok items, rest⟩) :
    rest = [] ∨ ∃ item mid, parse 0 ts = ⟨.ok (some item), mid⟩ ∧
      (items = [item] ∧ mid = rest ∨
        ∃ more others, Token.afterPunctuation? "," mid = some more ∧
          parseItems more = ⟨.ok others, rest⟩ ∧ items = item :: others) := by
  rw [parseItems_eq] at h
  obtain ⟨found, mid, hparse, h⟩ := Outcome.andThen_eq_ok.mp h
  cases found with
  | none =>
      cases h
      exact Or.inl (parse_eq_none hparse)
  | some item =>
      refine Or.inr ⟨item, mid, hparse, ?_⟩
      cases hcomma : Token.afterPunctuation? "," mid with
      | none =>
          simp only [hcomma] at h
          cases h
          exact Or.inl ⟨rfl, rfl⟩
      | some more =>
          simp only [hcomma] at h
          obtain ⟨others, hothers, rfl⟩ := Outcome.map_eq_ok.mp h
          exact Or.inr ⟨more, others, rfl, hothers, rfl⟩

/-! ### Extending an expression -/

theorem reached_of_leaf {e : Ast} (h : e.Leaf) : Reached p e rest := by
  cases e with
  | identifier name => exact ⟨by simp [Ast.spine], .identifier name, trivial, nofun⟩
  | string value => exact ⟨by simp [Ast.spine], .string value, trivial, nofun⟩
  | long value => exact ⟨by simp [Ast.spine], .long value, trivial, nofun⟩
  | double value => exact ⟨by simp [Ast.spine], .double value, trivial, nofun⟩
  | binary | renamed | select => exact h.elim

theorem Reached.noWhere {e : Ast} (reached : Reached p e ts) (hp : p < nextPrecedence ts) :
    e.endsInWhere = false := by
  cases hwhere : e.endsInWhere with
  | false => rfl
  | true =>
      have hzero := reached.closed hwhere
      omega

/-- An operator and an operand to its right, which was read at the precedence of the operator. -/
theorem Reached.binary {t : Token} {left right : Ast} (reached : Reached p left (t :: ts))
    (hp : p < t.precedence) (hjoin : t.IsInfix) (hr : Sound t.precedence ts right rest) :
    Reached p (.binary left t.text right) rest := by
  have hop : Token.ofInfix t.text = t := Token.ofInfix_text hjoin (by omega)
  have noRenaming : Token.asWord ∉ right.spine := by
    intro hmem
    have habove := hr.tight Token.asWord hmem
    have hbelow := Token.asWord_lt_of_isInfix hjoin (by omega)
    omega
  refine ⟨?_, ?_, ?_, hr.closed⟩
  · intro u hu
    rw [Ast.spine, hop] at hu
    rcases List.mem_cons.mp hu with rfl | hu
    · exact hp
    · exact reached.tight u hu
  · refine .binary reached.bracketed hr.bracketed noRenaming ?_ ?_ (reached.noWhere hp)
    · rw [hop]
      exact hr.tight
    · rw [hop]
      exact reached.grouped
  · show nextPrecedence rest ≤ (Token.ofInfix t.text).precedence
    rw [hop]
    exact hr.stopped

theorem Reached.renamed {left : Ast} {name : String}
    (reached : Reached p left (Token.asWord :: ts)) (hp : p < Token.asWord.precedence) :
    Reached p (.renamed left name) rest := by
  refine ⟨?_, .renamed reached.bracketed (reached.noWhere hp), trivial, nofun⟩
  intro u hu
  rcases List.mem_cons.mp hu with rfl | hu
  · exact hp
  · exact reached.tight u hu

/-- One turn of the loop keeps the invariant and adds the tokens that it consumes. -/
theorem reached_extension (sound : SoundBelow n) (hlen : ts.length ≤ n)
    (hts : ∀ t ∈ ts, t.Spelt) {left longer : Ast} (reached : Reached p left ts)
    (hp : p < nextPrecedence ts)
    (h : parseExtension left (nextPrecedence ts) ts = ⟨.ok longer, rest⟩) :
    Reached p longer rest ∧ ∃ front, front ≠ [] ∧ ts = front ++ rest ∧
      ∀ ls, left.Flattens ls → longer.Flattens (ls ++ front) := by
  cases ts with
  | nil => exact absurd hp (by simp [nextPrecedence])
  | cons t ts =>
      have hnext : nextPrecedence (t :: ts) = t.precedence := rfl
      rw [hnext] at hp h
      rcases parseExtension_eq_ok h with ⟨hjoin, right, hright, rfl⟩ | ⟨rfl, name, rfl, rfl⟩
      · have hr : Sound t.precedence ts right rest :=
          sound ts hlen (List.forall_mem_cons.mp hts).2 t.precedence right rest hright
        obtain ⟨front, hsplit, hflat⟩ := hr.consumed
        refine ⟨reached.binary hp hjoin hr, t :: front, by simp, by rw [hsplit]; rfl,
          fun ls hls => ?_⟩
        have whole := Ast.Flattens.binary t.text hls hflat
        rwa [Token.ofInfix_text hjoin (by omega)] at whole
      · exact ⟨reached.renamed hp, [Token.asWord, ⟨.identifier, name⟩], by simp, rfl,
          fun ls hls => .renamed name hls⟩

/-- The loop keeps the invariant, and stops where nothing binds tightly enough. -/
theorem reached_extensions (sound : SoundBelow n) (hlen : ts.length ≤ n)
    (hts : ∀ t ∈ ts, t.Spelt) {left e : Ast} (reached : Reached p left ts)
    (h : parseExtensions left p ts = ⟨.ok e, rest⟩) :
    Reached p e rest ∧ nextPrecedence rest ≤ p ∧ ∃ front, ts = front ++ rest ∧
      ∀ ls, left.Flattens ls → e.Flattens (ls ++ front) := by
  -- On the number of tokens, which every turn lowers.
  induction hk : ts.length using Nat.strongRecOn generalizing ts left with
  | ind k ih =>
      rcases parseExtensions_eq_ok h with ⟨hstop, rfl, rfl⟩ | ⟨hp, longer, mid, hturn, hloop⟩
      · exact ⟨reached, hstop, [], rfl, fun ls hls => by rwa [List.append_nil]⟩
      · obtain ⟨reached', front, hne, rfl, hgrow⟩ :=
          reached_extension sound hlen hts reached hp hturn
        have hpos := List.length_pos_iff.mpr hne
        rw [List.length_append] at hk hlen
        obtain ⟨hreached, hstop, front', rfl, hgrow'⟩ := ih mid.length (by omega) (by omega)
          (List.forall_mem_append.mp hts).2 reached' hloop rfl
        refine ⟨hreached, hstop, front ++ front', by simp, fun ls hls => ?_⟩
        rw [← List.append_assoc]
        exact hgrow' _ (hgrow ls hls)

/-! ### SELECT -/

/-- A SELECT list that something follows is read soundly. -/
theorem parseItems_sound (sound : SoundBelow n) (hlen : ts.length < n)
    (hts : ∀ t ∈ ts, t.Spelt) {items : List Ast} (hrest : rest ≠ [])
    (h : parseItems ts = ⟨.ok items, rest⟩) :
    (∃ front, ts = front ++ rest ∧ Ast.FlattensItems items front) ∧
      ∀ item ∈ items, item.Bracketed := by
  induction hk : ts.length using Nat.strongRecOn generalizing ts items with
  | ind k ih =>
      rcases parseItems_eq_ok h with hnil | ⟨item, mid, hitem, hmore⟩
      · exact absurd hnil hrest
      have hsound := sound ts hlen hts 0 item mid hitem
      obtain ⟨front, rfl, hflat⟩ := hsound.consumed
      rcases hmore with ⟨rfl, rfl⟩ | ⟨more, others, hcomma, hothers, rfl⟩
      · exact ⟨⟨front, rfl, .last hflat⟩, by simpa using hsound.bracketed⟩
      · obtain rfl := Token.eq_of_afterPunctuation? hcomma
        rw [List.length_append, List.length_cons] at hk hlen
        have hmoreSpelt := (List.forall_mem_cons.mp (List.forall_mem_append.mp hts).2).2
        obtain ⟨⟨front', rfl, hflat'⟩, hbracketed⟩ :=
          ih more.length (by omega) (by omega) hmoreSpelt hothers rfl
        refine ⟨⟨front ++ ⟨.punctuation, ","⟩ :: front', by simp, .more hflat hflat'⟩, ?_⟩
        exact List.forall_mem_cons.mpr ⟨hsound.bracketed, hbracketed⟩

theorem parseSelectBody_sound (sound : SoundBelow n) (hlen : ts.length < n)
    (hts : ∀ t ∈ ts, t.Spelt) {s : Select} (h : parseSelectBody ts = ⟨.ok s, rest⟩) :
    Reached p s.toAst rest ∧
      ∃ front, ts = front ++ rest ∧ s.toAst.Flattens (⟨.keyword, "SELECT"⟩ :: front) := by
  obtain ⟨fromOn, whereOn, hitems, hsource, hend⟩ := parseSelectBody_eq_ok h
  obtain ⟨projection, selection, table⟩ := s
  have hne : fromOn ≠ [] := by
    intro hnil
    rw [hnil] at hsource
    cases parseSource_eq_ok (by simp) hsource
  obtain ⟨⟨front, rfl, hflat⟩, hbracketed⟩ := parseItems_sound sound hlen hts hne hitems
  have hfrom := (List.forall_mem_append.mp hts).2
  obtain rfl := parseSource_eq_ok hfrom hsource
  rcases hend with ⟨-, hnone, rfl⟩ | ⟨mid, c, hwhere, hsome, hc⟩
  · obtain rfl : selection = none := hnone
    refine ⟨⟨nofun, .select hflat.ne_nil hbracketed nofun, trivial, nofun⟩, ?_⟩
    refine ⟨front ++ [⟨.keyword, "FROM"⟩, ⟨.identifier, table⟩], by simp, ?_⟩
    exact .select table hflat
  · obtain rfl : selection = some c := hsome
    have hafter := (List.forall_mem_cons.mp (List.forall_mem_cons.mp hfrom).2).2
    obtain rfl := Token.eq_of_afterKeyword? hafter (by decide) hwhere
    have hshorter : mid.length < n := by
      simp only [List.length_append, List.length_cons] at hlen
      omega
    have hsound := sound mid hshorter (List.forall_mem_cons.mp hafter).2 0 c rest hc
    obtain ⟨front', rfl, hflat'⟩ := hsound.consumed
    have hconditions : ∀ c' ∈ some c, Ast.Bracketed c' := by
      intro c' hc'
      obtain rfl := Option.mem_some_iff.mp hc'
      exact hsound.bracketed
    refine ⟨⟨nofun, .select hflat.ne_nil hbracketed hconditions, trivial, fun _ => ?_⟩, ?_⟩
    · exact Nat.le_zero.mp hsound.stopped
    · refine ⟨front ++ ⟨.keyword, "FROM"⟩ :: ⟨.identifier, table⟩ :: ⟨.keyword, "WHERE"⟩ :: front',
        by simp, ?_⟩
      exact .selectWhere table hflat hflat'

/-! ### All expressions -/

/-- Expressions are read soundly, however many tokens there are. -/
theorem soundBelow (n : Nat) : SoundBelow n := by
  induction n with
  | zero =>
      intro ts hlen
      omega
  | succ n ih =>
      intro ts hlen hts p e rest h
      obtain ⟨left, mid, hoperand, hextensions⟩ := parse_eq_some h
      -- The operand, which consumes at least one token.
      have hleft : Reached p left mid ∧ ∃ front, front ≠ [] ∧ ts = front ++ mid ∧
          left.Flattens front := by
        rcases parseOperand_eq_ok hoperand with ⟨hleaf, t, rfl, hflat⟩ | ⟨body, s, rfl, hs, rfl⟩
        · exact ⟨reached_of_leaf hleaf, [t], by simp, rfl, hflat⟩
        · obtain ⟨hreached, front, rfl, hflat⟩ := parseSelectBody_sound ih
            (by simpa using hlen) (List.forall_mem_cons.mp hts).2 hs
          exact ⟨hreached, ⟨.keyword, "SELECT"⟩ :: front, by simp, rfl, hflat⟩
      obtain ⟨hreached, front, hne, rfl, hflat⟩ := hleft
      have hpos := List.length_pos_iff.mpr hne
      rw [List.length_append] at hlen
      obtain ⟨hreached', hstop, front', rfl, hgrow⟩ := reached_extensions ih (by omega)
        (List.forall_mem_append.mp hts).2 hreached hextensions
      exact ⟨hreached', ⟨front ++ front', by simp, hgrow front hflat⟩, hstop⟩

/-- **What is read is what was written.**  An expression that is read off the tokens of a text is
written with exactly those that were consumed; the next one does not belong to it; and it is
bracketed as precedence asks for, its left edge as tightly as was called for. -/
theorem parse_sound {sql : String} {ts rest : List Token} {p : Nat} {e : Ast}
    (hts : Token.ofText sql = .ok ts) (h : parse p ts = ⟨.ok (some e), rest⟩) :
    (∃ consumed, ts = consumed ++ rest ∧ e.Flattens consumed) ∧ nextPrecedence rest ≤ p ∧
      (∀ t ∈ e.spine, p < t.precedence) ∧ e.Bracketed := by
  have hsound : Sound p ts e rest :=
    soundBelow (ts.length + 1) ts (Nat.lt_succ_self _) (Token.spelt_of_ofText hts) p e rest h
  exact ⟨hsound.consumed, hsound.stopped, hsound.tight, hsound.bracketed⟩

/-- `a - b - c * 2`. -/
def difference : Ast :=
  .binary (.binary (.identifier "a") "-" (.identifier "b")) "-"
    (.binary (.identifier "c") "*" (.long 2))

/-- The tokens of `a - b - c * 2 AND d`. -/
def differenceTokens : List Token :=
  [⟨.identifier, "a"⟩, ⟨.operator, "-"⟩, ⟨.identifier, "b"⟩, ⟨.operator, "-"⟩, ⟨.identifier, "c"⟩,
    ⟨.operator, "*"⟩, ⟨.long, "2"⟩, ⟨.keyword, "AND"⟩, ⟨.identifier, "d"⟩]

/-- Differences group to the left and hold products, and a connective is left where tighter
operators were called for. -/
theorem parse_sound_difference :
    Token.ofText "a - b - c * 2 and d" = .ok differenceTokens ∧
      parse 30 differenceTokens = ⟨.ok (some difference), [⟨.keyword, "AND"⟩, ⟨.identifier, "d"⟩]⟩ ∧
      (∀ t ∈ difference.spine, 30 < t.precedence) ∧ difference.Bracketed := by
  have htokens : Token.ofText "a - b - c * 2 and d" = .ok differenceTokens := by cbv
  have hparse : parse 30 differenceTokens =
      ⟨.ok (some difference), [⟨.keyword, "AND"⟩, ⟨.identifier, "d"⟩]⟩ := by cbv
  obtain ⟨-, -, hspine, hbracketed⟩ := parse_sound htokens hparse
  exact ⟨htokens, hparse, hspine, hbracketed⟩

end SelectPlanner.Parser
