/-
Every canonical tree is read back from its tokens.

An expression is read by going down its left edge to an operand and then up again, one extension
for each operator or new name on the edge.  So what reading the tokens of a tree comes to is not
the tree but the loop, with the tree already built: `CompleteBelow` says this at every precedence
that the left edge of the tree is above, and for all that may follow.  Whether the loop goes on
from there depends on what follows alone.

What may follow is said by `Ends`, for the right edge: it must belong to no right operand on it,
continue no condition on it, and give no condition to a SELECT on it.  Each part of a tree is
followed by a token that does none of this, because the tree is bracketed.
-/
import Mathlib
import SelectPlanner.Proofs.CanonicalTrees
import SelectPlanner.Proofs.ParserSoundness

namespace SelectPlanner.Parser

open Token (nextPrecedence)

variable {e left right : Ast} {ts rest : List Token} {p : Nat} {op table : String}

/-- What comes after an expression takes no part in it. -/
structure Ends (e : Ast) (rest : List Token) : Prop where
  /-- It does not belong to the right operand of its root. -/
  grouped : e.Binds (nextPrecedence rest)
  /-- It does not continue a condition at its end. -/
  closed : e.endsInWhere = true → nextPrecedence rest = 0
  /-- It gives no condition to a SELECT at its end. -/
  unconditional : Token.afterKeyword? "WHERE" rest = none

/-! ### What the readers make of the right tokens -/

theorem parse_of_operand (h : parseOperand ts = ⟨.ok (some e), rest⟩) :
    parse p ts = (parseExtensions e p rest).map some := by
  rw [parse_eq, h, andThen_ok]

theorem parseExtensions_of_le (h : nextPrecedence rest ≤ p) :
    parseExtensions e p rest = ⟨.ok e, rest⟩ := by
  rw [parseExtensions_eq, if_neg (by omega)]

theorem parseExtensions_ofInfix (hp : p < (Token.ofInfix op).precedence)
    (hright : parse (Token.ofInfix op).precedence ts = ⟨.ok (some right), rest⟩) :
    parseExtensions left p (Token.ofInfix op :: ts) =
      parseExtensions (.binary left op right) p rest := by
  have hnext : nextPrecedence (Token.ofInfix op :: ts) = (Token.ofInfix op).precedence := rfl
  have hinfix : (Token.ofInfix op).IsInfix := Ast.isInfix_ofInfix
  unfold Token.IsInfix at hinfix
  rw [parseExtensions_eq, hnext, if_pos hp, parseExtension_cons, if_pos hinfix, hright]
  simp only [andThen_ok, Ast.text_ofInfix]

theorem parseExtensions_asWord {name : String} (hp : p < Token.asWord.precedence) :
    parseExtensions left p (Token.asWord :: ⟨.identifier, name⟩ :: rest) =
      parseExtensions (.renamed left name) p rest := by
  have hnext : nextPrecedence (Token.asWord :: ⟨.identifier, name⟩ :: rest) =
      Token.asWord.precedence := rfl
  rw [parseExtensions_eq, hnext, if_pos hp, parseExtension_cons, if_neg (by decide),
    if_pos (by decide), parseName_cons, if_pos rfl]
  rfl

theorem parseSource_cons (table : String) (rest : List Token) :
    parseSource (⟨.keyword, "FROM"⟩ :: ⟨.identifier, table⟩ :: rest) = ⟨.ok table, rest⟩ := by
  rw [parseSource_eq]
  rfl

theorem parseSelectBody_of_none {projection : List Ast}
    (h : parseItems ts = ⟨.ok projection, ⟨.keyword, "FROM"⟩ :: ⟨.identifier, table⟩ :: rest⟩)
    (hwhere : Token.afterKeyword? "WHERE" rest = none) :
    parseSelectBody ts = ⟨.ok ⟨projection, none, table⟩, rest⟩ := by
  rw [parseSelectBody_eq, h, andThen_ok, parseSource_cons, andThen_ok, hwhere]

theorem parseSelectBody_of_some {projection : List Ast} {condition : Ast} {us : List Token}
    (h : parseItems ts = ⟨.ok projection,
      ⟨.keyword, "FROM"⟩ :: ⟨.identifier, table⟩ :: ⟨.keyword, "WHERE"⟩ :: us⟩)
    (hcondition : parse 0 us = ⟨.ok (some condition), rest⟩) :
    parseSelectBody ts = ⟨.ok ⟨projection, some condition, table⟩, rest⟩ := by
  have hwhere : Token.afterKeyword? "WHERE" (⟨.keyword, "WHERE"⟩ :: us) = some us := rfl
  rw [parseSelectBody_eq, h, andThen_ok, parseSource_cons, andThen_ok, hwhere]
  simp only [hcondition, andThen_ok]

theorem parseOperand_select {s : Select} (h : parseSelectBody ts = ⟨.ok s, rest⟩) :
    parseOperand (⟨.keyword, "SELECT"⟩ :: ts) = ⟨.ok (some s.toAst), rest⟩ := by
  rw [parseOperand_cons]
  simp only [if_pos, h, map_ok]

/-- An expression that stands alone, or between words and commas, is read as a whole. -/
theorem parse_of_extensions (h : parse p ts = (parseExtensions e p rest).map some)
    (hstop : nextPrecedence rest ≤ p) : parse p ts = ⟨.ok (some e), rest⟩ := by
  rw [h, parseExtensions_of_le hstop, map_ok]

/-! ### What follows the parts of a tree -/

theorem afterKeyword?_ofInfix (op : String) (ts : List Token) :
    Token.afterKeyword? "WHERE" (Token.ofInfix op :: ts) = none := by
  unfold Token.ofInfix
  by_cases h : op = "AND" ∨ op = "OR"
  · rcases h with rfl | rfl <;> rfl
  · rw [if_neg h]
    rfl

theorem ends_of_zero (hstop : nextPrecedence rest = 0)
    (hwhere : Token.afterKeyword? "WHERE" rest = none) : Ends e rest := by
  refine ⟨?_, fun _ => hstop, hwhere⟩
  rw [hstop]
  cases e with
  | binary => exact Nat.zero_le _
  | identifier | string | long | double | renamed | select => exact trivial

/-- Behind a left operand comes its operator. -/
theorem ends_left (hb : (Ast.binary left op right).Bracketed) :
    Ends left (Token.ofInfix op :: ts) := by
  cases hb with
  | binary _ _ _ _ grouped noWhere =>
      refine ⟨grouped, fun h => ?_, afterKeyword?_ofInfix op ts⟩
      rw [noWhere] at h
      cases h

/-- Behind a right operand comes what is behind the whole. -/
theorem ends_right (hb : (Ast.binary left op right).Bracketed)
    (h : Ends (.binary left op right) rest) : Ends right rest := by
  refine ⟨?_, h.closed, h.unconditional⟩
  have hgrouped : nextPrecedence rest ≤ (Token.ofInfix op).precedence := h.grouped
  cases hb with
  | binary _ _ _ tighter _ _ =>
      cases right with
      | binary left' op' right' =>
          have htighter := tighter (Token.ofInfix op') List.mem_cons_self
          show nextPrecedence rest ≤ (Token.ofInfix op').precedence
          omega
      | identifier | string | long | double | renamed | select => exact trivial

/-- Behind what is renamed comes the word for it. -/
theorem ends_renamed {name : String} (hc : (Ast.renamed e name).Canonical) :
    Ends e (Token.asWord :: ts) := by
  cases hc.bracketed with
  | renamed _ noWhere =>
      refine ⟨?_, fun h => ?_, rfl⟩
      · cases e with
        | binary left op right =>
            have hop : op ∈ Ast.infixes :=
              hc.writable.known left op right (Ast.nodes_renamed _ _ (Ast.mem_nodes _))
            exact Nat.le_of_lt (Token.asWord_lt_of_isInfix Ast.isInfix_ofInfix
              (Ast.precedence_ofInfix_pos_iff.mpr hop))
        | identifier | string | long | double | renamed | select => exact trivial
      · rw [noWhere] at h
        cases h

/-! ### Trees and SELECT lists -/

/-- Canonical trees written with fewer than `n` tokens are read back. -/
def CompleteBelow (n : Nat) : Prop :=
  ∀ (e : Ast) (ts : List Token), ts.length < n → e.Flattens ts → e.Canonical → ∀ p rest,
    (∀ t ∈ e.spine, p < t.precedence) → Ends e rest →
      parse p (ts ++ rest) = (parseExtensions e p rest).map some

variable {n : Nat}

/-- An expression of precedence 0 is read up to where no operator follows. -/
theorem CompleteBelow.parse_zero (complete : CompleteBelow n) (hlen : ts.length < n)
    (h : e.Flattens ts) (hc : e.Canonical) (hstop : nextPrecedence rest = 0)
    (hwhere : Token.afterKeyword? "WHERE" rest = none) :
    parse 0 (ts ++ rest) = ⟨.ok (some e), rest⟩ :=
  parse_of_extensions (complete e ts hlen h hc 0 rest (Ast.spine_pos hc.writable)
    (ends_of_zero hstop hwhere)) (Nat.le_of_eq hstop)

theorem parseItems_flattens (complete : CompleteBelow n) {items : List Ast}
    (hlen : ts.length < n) (h : Ast.FlattensItems items ts) (hc : ∀ item ∈ items, item.Canonical)
    (hstop : nextPrecedence rest = 0) (hwhere : Token.afterKeyword? "WHERE" rest = none)
    (hcomma : Token.afterPunctuation? "," rest = none) :
    parseItems (ts ++ rest) = ⟨.ok items, rest⟩ := by
  induction items generalizing ts with
  | nil => cases h
  | cons item items ih =>
      obtain ⟨hitem, hitems⟩ := List.forall_mem_cons.mp hc
      cases h with
      | last h =>
          rw [parseItems_eq, complete.parse_zero hlen h hitem hstop hwhere, andThen_ok]
          simp only [hcomma]
      | @more _ _ ts us h hs =>
          rw [List.length_append, List.length_cons] at hlen
          have hmore : Token.afterPunctuation? "," (⟨.punctuation, ","⟩ :: (us ++ rest)) =
              some (us ++ rest) := rfl
          rw [List.append_assoc, List.cons_append, parseItems_eq,
            complete.parse_zero (by omega) h hitem rfl rfl, andThen_ok]
          simp only [hmore, ih (by omega) hs hitems, map_ok]

/-- Canonical trees are read back, whatever they are written with. -/
theorem completeBelow (n : Nat) : CompleteBelow n := by
  induction n with
  | zero =>
      intro e ts hlen
      omega
  | succ n ih =>
      intro e ts hlen h hc p rest hp hrest
      cases h with
      | identifier name =>
          refine parse_of_operand ?_
          rw [List.singleton_append, parseOperand_cons]
      | string value =>
          refine parse_of_operand ?_
          rw [List.singleton_append, parseOperand_cons]
      | long hread =>
          refine parse_of_operand ?_
          rw [List.singleton_append, parseOperand_cons]
          simp only [hread]
      | double hread =>
          refine parse_of_operand ?_
          rw [List.singleton_append, parseOperand_cons]
          simp only [hread]
      | @binary left right ls rs op hl hr =>
          rw [List.length_append, List.length_cons] at hlen
          obtain ⟨hop, hpl⟩ := List.forall_mem_cons.mp hp
          obtain ⟨hcl, hcr⟩ := hc.operands
          have hright : parse (Token.ofInfix op).precedence (rs ++ rest) =
              ⟨.ok (some right), rest⟩ := by
            refine parse_of_extensions (ih right rs (by omega) hr hcr _ rest ?_
              (ends_right hc.bracketed hrest)) hrest.grouped
            cases hc.bracketed with
            | binary _ _ _ tighter _ _ => exact tighter
          rw [List.append_assoc, List.cons_append, ih left ls (by omega) hl hcl p _ hpl
            (ends_left hc.bracketed), parseExtensions_ofInfix hop hright]
      | @renamed expr ts name h =>
          rw [List.length_append, List.length_cons] at hlen
          obtain ⟨has, hpe⟩ := List.forall_mem_cons.mp hp
          rw [List.append_assoc]
          show parse p (ts ++ Token.asWord :: ⟨.identifier, name⟩ :: rest) = _
          rw [ih expr ts (by omega) h hc.expr p _ hpe (ends_renamed hc), parseExtensions_asWord has]
      | @select projection ts table h =>
          simp only [List.length_append, List.length_cons] at hlen
          refine parse_of_operand ?_
          rw [List.cons_append, List.append_assoc]
          refine parseOperand_select (parseSelectBody_of_none ?_ hrest.unconditional)
          exact parseItems_flattens ih (by omega) h hc.items rfl rfl rfl
      | @selectWhere projection condition ts cs table h hcs =>
          simp only [List.length_append, List.length_cons] at hlen
          have hcondition : parse 0 (cs ++ rest) = ⟨.ok (some condition), rest⟩ :=
            ih.parse_zero (by omega) hcs hc.condition (hrest.closed rfl) hrest.unconditional
          refine parse_of_operand ?_
          rw [List.cons_append, List.append_assoc]
          refine parseOperand_select (parseSelectBody_of_some ?_ hcondition)
          exact parseItems_flattens ih (by omega) h hc.items rfl rfl rfl

/-- **Every canonical tree can be written, and is read back from whatever it is written with.** -/
theorem parse_canonical {e : Ast} (hc : e.Canonical) :
    (∃ ts, e.Flattens ts ∧ ∀ t ∈ ts, t.Lexical) ∧
      ∀ ts rest, e.Flattens ts → nextPrecedence rest = 0 →
        Token.afterKeyword? "WHERE" rest = none →
          parse 0 (ts ++ rest) = ⟨.ok (some e), rest⟩ := by
  refine ⟨Ast.exists_flattens hc.bracketed hc.writable, ?_⟩
  intro ts rest h hstop hwhere
  exact (completeBelow (ts.length + 1)).parse_zero (Nat.lt_succ_self _) h hc hstop hwhere

/-- `SELECT a * 2.5 AS x, SELECT 7 FROM u FROM t WHERE b AS c + 1 AND d`. -/
def nestedQuery : Ast :=
  .select
    [.renamed (.binary (.identifier "a") "*" (.double ⟨0x4004000000000000⟩)) "x",
      .select [.long 7] none "u"]
    (some (.binary (.binary (.renamed (.identifier "b") "c") "+" (.long 1)) "AND"
      (.identifier "d"))) "t"

/-- The tokens of the query, with leading zeros. -/
def nestedQueryTokens : List Token :=
  [⟨.keyword, "SELECT"⟩, ⟨.identifier, "a"⟩, ⟨.operator, "*"⟩, ⟨.double, "02.50"⟩, ⟨.keyword, "AS"⟩,
    ⟨.identifier, "x"⟩, ⟨.punctuation, ","⟩, ⟨.keyword, "SELECT"⟩, ⟨.long, "007"⟩,
    ⟨.keyword, "FROM"⟩, ⟨.identifier, "u"⟩, ⟨.keyword, "FROM"⟩, ⟨.identifier, "t"⟩,
    ⟨.keyword, "WHERE"⟩, ⟨.identifier, "b"⟩, ⟨.keyword, "AS"⟩, ⟨.identifier, "c"⟩, ⟨.operator, "+"⟩,
    ⟨.long, "1"⟩, ⟨.keyword, "AND"⟩, ⟨.identifier, "d"⟩]

theorem canonical_nestedQuery : nestedQuery.Canonical := by
  refine ⟨?_, ?_, ?_, ?_⟩
  · refine .select (List.cons_ne_nil _ _) (List.forall_mem_cons.mpr ⟨?_, ?_⟩) ?_
    · exact .renamed (.binary (.identifier "a") (.double _) nofun nofun trivial rfl) rfl
    · exact List.forall_mem_singleton.mpr (.select (List.cons_ne_nil _ _)
        (List.forall_mem_singleton.mpr (.long 7)) nofun)
    · rintro c ⟨⟩
      refine .binary (.binary (.renamed (.identifier "b") rfl) (.long 1) nofun nofun trivial rfl)
        (.identifier "d") nofun nofun ?_ rfl
      show Token.precedence _ ≤ Token.precedence _
      decide
  · intro left op right h
    simp only [nestedQuery, Ast.nodes, Ast.nodesOf, List.cons_append, List.nil_append,
      List.append_nil, List.mem_cons, reduceCtorEq, Ast.binary.injEq, List.not_mem_nil, or_self,
      or_false, false_or] at h
    rcases h with ⟨-, rfl, -⟩ | ⟨-, rfl, -⟩ | ⟨-, rfl, -⟩ <;> decide
  · intro value h
    simp only [nestedQuery, Ast.nodes, Ast.nodesOf, List.cons_append, List.nil_append,
      List.append_nil, List.mem_cons, reduceCtorEq, Ast.long.injEq, List.not_mem_nil, or_self,
      or_false, false_or] at h
    rcases h with rfl | rfl <;> decide
  · intro value h
    simp only [nestedQuery, Ast.nodes, Ast.nodesOf, List.cons_append, List.nil_append,
      List.append_nil, List.mem_cons, reduceCtorEq, Ast.double.injEq, List.not_mem_nil, or_self,
      or_false, false_or] at h
    subst h
    refine ⟨['2'], ?_, ['5'], ?_, by decide +kernel⟩
    · exact Lexeme.mem_long.mpr ⟨by simp, List.forall_mem_singleton.mpr (by decide)⟩
    · exact Lexeme.mem_long.mpr ⟨by simp, List.forall_mem_singleton.mpr (by decide)⟩

theorem flattens_nestedQuery : nestedQuery.Flattens nestedQueryTokens := by
  have hproduct : Ast.Flattens (.binary (.identifier "a") "*" (.double ⟨0x4004000000000000⟩))
      [⟨.identifier, "a"⟩, ⟨.operator, "*"⟩, ⟨.double, "02.50"⟩] :=
    .binary "*" (.identifier "a") (.double (by decide +kernel))
  have hselect : Ast.Flattens (.select [.long 7] none "u")
      [⟨.keyword, "SELECT"⟩, ⟨.long, "007"⟩, ⟨.keyword, "FROM"⟩, ⟨.identifier, "u"⟩] :=
    .select "u" (.last (.long (by decide +kernel)))
  have hsum : Ast.Flattens (.binary (.renamed (.identifier "b") "c") "+" (.long 1))
      [⟨.identifier, "b"⟩, ⟨.keyword, "AS"⟩, ⟨.identifier, "c"⟩, ⟨.operator, "+"⟩, ⟨.long, "1"⟩] :=
    .binary "+" (.renamed "c" (.identifier "b")) (.long (by decide +kernel))
  exact .selectWhere "t" (.more (.renamed "x" hproduct) (.last hselect))
    (.binary "AND" hsum (.identifier "d"))

/-- A statement within a SELECT list, a new name within a condition, and a semicolon behind. -/
theorem parse_canonical_nested : nestedQuery.Canonical ∧ nestedQuery.Flattens nestedQueryTokens ∧
    parse 0 (nestedQueryTokens ++ [⟨.punctuation, ";"⟩]) =
      ⟨.ok (some nestedQuery), [⟨.punctuation, ";"⟩]⟩ :=
  ⟨canonical_nestedQuery, flattens_nestedQuery,
    (parse_canonical canonical_nestedQuery).2 _ _ flattens_nestedQuery rfl rfl⟩

end SelectPlanner.Parser
