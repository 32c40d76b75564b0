/-
Numbers are read exactly or not at all.

The integer literals of a text and the whole numbers of the statement that is read from it are in
one row: each number is what the digits of its literal denote, whatever zeros they start with.  The
value has to be below 2^63.  Where the digits of some literal denote more, the text is no statement,
and that is the only thing that is ever wrong with an integer literal.  With a number that has a
fraction nothing is wrong at all, for the digits that a text can have there are all read.

The row comes from the tokens that a tree is written with, by induction on how it is written; what a
complaint about a literal is about comes from the tokens that reading took.
-/
import Mathlib
import SelectPlanner.Proofs.Acceptance
import SelectPlanner.Proofs.Consumption

namespace SelectPlanner

/-! ### The literals of a text and the numbers of a tree -/

/-- The integer literals among these tokens. -/
def Token.longs (ts : List Token) : List Token := ts.filter (·.kind = .long)

/-- An integer literal whose digits denote this number. -/
structure Token.Counts (t : Token) (n : Nat) : Prop where
  kind : t.kind = .long
  nonempty : t.text.toList ≠ []
  digits : ∀ c ∈ t.text.toList, Lexeme.Digit c
  value : Nat.ofDigitChars 10 t.text.toList 0 = n

/-- The number is the one that the literal denotes, and small enough. -/
def Token.Denotes (t : Token) (value : Int64) : Prop :=
  ∃ n < 2 ^ 63, t.Counts n ∧ value.toInt = n

theorem Token.Counts.natural? {t : Token} {n : Nat} (h : t.Counts n) :
    Numeral.natural? t.text.toList = some n := by
  rw [Numeral.natural?_of_digits h.nonempty h.digits, h.value]

theorem Token.Lexical.counts {t : Token} (h : t.Lexical) (hkind : t.kind = .long) :
    t.Counts (Nat.ofDigitChars 10 t.text.toList 0) := by
  obtain ⟨hne, hdigits⟩ := Lexeme.mem_long.mp (h.long hkind)
  exact ⟨hkind, hne, hdigits, rfl⟩

namespace Ast

/-- The value of a whole number. -/
def long? : Ast → Option Int64
  | long value => some value
  | identifier _ | binary .. | string _ | double _ | renamed .. | select .. => none

/-- The whole numbers of a tree, from left to right. -/
def longs (e : Ast) : List Int64 := e.nodes.filterMap long?

/-- The whole numbers of trees in a row. -/
def longsOf (items : List Ast) : List Int64 := (nodesOf items).filterMap long?

variable {left right expr : Ast} {op name table : String} {projection : List Ast} {ts : List Token}

theorem longs_binary : (binary left op right).longs = left.longs ++ right.longs := by
  rw [longs, nodes, List.filterMap_cons_none rfl, List.filterMap_append]
  rfl

theorem longs_renamed : (renamed expr name).longs = expr.longs := by
  rw [longs, nodes, List.filterMap_cons_none rfl]
  rfl

theorem longs_select : (select projection none table).longs = longsOf projection := by
  rw [longs, nodes, List.filterMap_cons_none rfl]
  rfl

theorem longs_selectWhere :
    (select projection (some expr) table).longs = longsOf projection ++ expr.longs := by
  rw [longs, nodes, List.filterMap_cons_none rfl, List.filterMap_append]
  rfl

theorem longsOf_cons : longsOf (expr :: projection) = expr.longs ++ longsOf projection := by
  rw [longsOf, nodesOf, List.filterMap_append]
  rfl

/-- The literals read as the numbers, one by one. -/
abbrev ReadAs : List Token → List Int64 → Prop :=
  List.Forall₂ fun t value => Numeral.long? t.text.toList = some value

theorem kind_ofInfix_ne_long : (Token.ofInfix op).kind ≠ .long := by
  unfold Token.ofInfix
  split
  · exact nofun
  · exact nofun

mutual

/-- A tree is written with the literals of its numbers. -/
theorem Flattens.readAs {e : Ast} {ts : List Token} (h : e.Flattens ts) :
    ReadAs (Token.longs ts) e.longs :=
  match h with
  | .identifier _ | .string _ | .double _ => .nil
  | .long h => .cons h .nil
  | .binary op hl hr => by
      rw [longs_binary, Token.longs, List.filter_append, List.filter_cons_of_neg]
      · exact List.rel_append hl.readAs hr.readAs
      · simpa using kind_ofInfix_ne_long
  | .renamed name h => by
      rw [longs_renamed, Token.longs, List.filter_append]
      exact (List.append_nil _).symm ▸ h.readAs
  | .select table h => by
      rw [longs_select, Token.longs, List.filter_cons_of_neg (by decide), List.filter_append]
      exact (List.append_nil _).symm ▸ h.readAs
  | .selectWhere table h hc => by
      rw [longs_selectWhere, Token.longs, List.filter_cons_of_neg (by decide), List.filter_append]
      exact List.rel_append h.readAs hc.readAs

theorem FlattensItems.readAs {items : List Ast} {ts : List Token} (h : FlattensItems items ts) :
    ReadAs (Token.longs ts) (longsOf items) :=
  match h with
  | .last h => by
      rw [longsOf_cons]
      exact (List.append_nil _).symm ▸ h.readAs
  | .more h hs => by
      rw [longsOf_cons, Token.longs, List.filter_append, List.filter_cons_of_neg (by decide)]
      exact List.rel_append h.readAs hs.readAs

end

/-! ### Statements -/

variable {sql : String} {e : Ast}

theorem denotes_of_long? {t : Token} {value : Int64} (ht : t.Lexical) (hkind : t.kind = .long)
    (h : Numeral.long? t.text.toList = some value) : t.Denotes value := by
  have hcounts := ht.counts hkind
  obtain ⟨hsmall, hvalue⟩ := Numeral.toInt_of_long? hcounts.natural? h
  exact ⟨_, hsmall, hcounts, hvalue⟩

/-- The numbers of a statement are those of the text, in the same order. -/
theorem forall₂_longs_of_ofTokens (hts : ∀ t ∈ ts, t.Lexical) (h : ofTokens ts = .ok e) :
    List.Forall₂ Token.Denotes (Token.longs ts) e.longs := by
  obtain ⟨front, hsplit, -, hflat, -⟩ := flattens_of_ofTokens h hts
  -- What the tree is not written with is at most a semicolon, which is no literal.
  have hlongs : Token.longs ts = Token.longs front := by
    rcases hsplit with rfl | rfl
    · rfl
    · rw [Token.longs, List.filter_append]
      exact List.append_nil _
  rw [hlongs]
  have hmem : ∀ t ∈ Token.longs front, t ∈ ts ∧ t.kind = .long := by
    intro t ht
    rw [← hlongs] at ht
    simpa [Token.longs] using ht
  refine ((List.forall₂_and_left _ _).mpr ⟨hmem, hflat.readAs⟩).imp ?_
  rintro t value ⟨⟨ht, hkind⟩, hread⟩
  exact denotes_of_long? (hts t ht) hkind hread

/-- Every integer literal of a statement denotes a number. -/
theorem exists_denotes {t : Token} (hts : ∀ t ∈ ts, t.Lexical) (h : ofTokens ts = .ok e)
    (ht : t ∈ ts) (hkind : t.kind = .long) : ∃ value, t.Denotes value := by
  have hrow := forall₂_longs_of_ofTokens hts h
  have hlong : t ∈ Token.longs ts := by simpa [Token.longs, hkind] using ht
  obtain ⟨i, hi, rfl⟩ := List.getElem_of_mem hlong
  exact ⟨_, hrow.get hi (hrow.length_eq ▸ hi)⟩

/-- A complaint about a literal is about one of the tokens. -/
theorem exists_unreadable {kind text : String}
    (h : ofTokens ts = .error (.invalidLiteral kind text)) :
    ∃ t ∈ ts, t.text = text ∧ t.Unreadable kind := by
  -- It is reading that fails: an empty input and tokens left over are complained of otherwise.
  have hresult : (Parser.parse 0 ts).result = .error (.invalidLiteral kind text) := by
    unfold ofTokens at h
    rcases hparse : Parser.parse 0 ts with ⟨err | _ | found, rest⟩
    · rw [hparse] at h
      exact congrArg _ (Except.error.inj h)
    · rw [hparse] at h
      cases h
    · rw [hparse] at h
      dsimp only at h
      split at h
      · cases h
      · cases h
  cases Parser.takes_parse 0 ts with
  | ok split settled =>
      rw [split, settled _ rfl] at hresult
      cases hresult
  | error split failed cites =>
      rw [failed] at hresult
      obtain rfl := Except.error.inj hresult
      obtain ⟨t, ht, hcited⟩ := cites
      exact ⟨t, split ▸ List.mem_append_left _ ht, hcited⟩

/-- **Numbers are read exactly or not at all.**  The whole numbers of a statement are those that the
digits of the text denote, one by one, and below 2^63.  If digits denote more, the text is no
statement; nothing else is ever wrong with an integer literal, and nothing at all with another
number. -/
theorem ofText_counts (hts : Token.ofText sql = .ok ts) :
    (∀ e, ofText sql = .ok e → List.Forall₂ Token.Denotes (Token.longs ts) e.longs) ∧
    (∀ text, ofText sql = .error (.invalidLiteral "integer" text) →
      ∃ t ∈ ts, t.text = text ∧ ∃ n, t.Counts n ∧ 2 ^ 63 ≤ n) ∧
    ((∃ t ∈ ts, ∃ n, t.Counts n ∧ 2 ^ 63 ≤ n) → ∃ err, ofText sql = .error err) ∧
    ∀ text, ofText sql ≠ .error (.invalidLiteral "double" text) := by
  have hlexical := Token.lexical_of_ofText hts
  rw [ofText_of_tokens hts]
  refine ⟨fun e => forall₂_longs_of_ofTokens hlexical, ?_, ?_, ?_⟩
  · intro text h
    obtain ⟨t, ht, htext, ⟨-, hkind, hnone⟩ | ⟨hdouble, -⟩⟩ := exists_unreadable h
    · have hcounts := (hlexical t ht).counts hkind
      refine ⟨t, ht, htext, _, hcounts, ?_⟩
      by_contra hsmall
      obtain ⟨value, hvalue⟩ :=
        (Numeral.exists_long?_iff hcounts.natural?).mpr (Nat.lt_of_not_le hsmall)
      rw [hnone] at hvalue
      cases hvalue
    · exact absurd hdouble (by decide)
  · rintro ⟨t, ht, n, hcounts, hlarge⟩
    cases hresult : ofTokens ts with
    | error err => exact ⟨err, rfl⟩
    | ok e =>
        obtain ⟨value, m, hm, hcounts', -⟩ := exists_denotes hlexical hresult ht hcounts.kind
        have hsame : m = n := hcounts'.value.symm.trans hcounts.value
        omega
  · intro text h
    obtain ⟨t, ht, -, ⟨hinteger, -⟩ | ⟨-, hkind, hnone⟩⟩ := exists_unreadable h
    · exact absurd hinteger (by decide)
    · obtain ⟨value, hvalue⟩ := Double.exists_ofText? ((hlexical t ht).double hkind)
      rw [hnone] at hvalue
      cases hvalue

/-- The tokens of `007 < 9223372036854775807`. -/
def greatestTokens : List Token :=
  [⟨.long, "007"⟩, ⟨.operator, "<"⟩, ⟨.long, "9223372036854775807"⟩]

/-- The tokens of `007 < 9223372036854775808`. -/
def excessiveTokens : List Token :=
  [⟨.long, "007"⟩, ⟨.operator, "<"⟩, ⟨.long, "9223372036854775808"⟩]

/-- Leading zeros do not count, and neither does one number more than there are. -/
theorem ofText_counts_limit :
    Token.ofText "007 < 9223372036854775807" = .ok greatestTokens ∧
      List.Forall₂ Token.Denotes [⟨.long, "007"⟩, ⟨.long, "9223372036854775807"⟩]
        [7, 9223372036854775807] ∧
      Token.ofText "007 < 9223372036854775808" = .ok excessiveTokens ∧
      ∃ t ∈ excessiveTokens, t.text = "9223372036854775808" ∧ ∃ n, t.Counts n ∧ 2 ^ 63 ≤ n := by
  have hgreatest : Token.ofText "007 < 9223372036854775807" = .ok greatestTokens := by cbv
  have hread : ofText "007 < 9223372036854775807" =
      .ok (.binary (.long 7) "<" (.long 9223372036854775807)) := by cbv
  have hexcessive : Token.ofText "007 < 9223372036854775808" = .ok excessiveTokens := by cbv
  have hrefused : ofText "007 < 9223372036854775808" =
      .error (.invalidLiteral "integer" "9223372036854775808") := by cbv
  exact ⟨hgreatest, (ofText_counts hgreatest).1 _ hread, hexcessive,
    (ofText_counts hexcessive).2.1 _ hrefused⟩

end Ast

end SelectPlanner
