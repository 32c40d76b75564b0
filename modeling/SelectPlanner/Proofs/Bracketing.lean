/-
Trees as tokens, and trees that need no parentheses.

`Flattens` relates a tree to the tokens that it is written with, from left to right.  It is a
relation and no function because a number can be written in more than one way; everything else
about the tokens is settled by the tree.

Several trees flatten to the same tokens, and `Bracketed` picks the one that precedence asks for.
What it says of an operator is about whole edges of its operands.  A renaming or a loose operator
may not stand anywhere on the left edge of a right operand, for the reading of that operand would
have stopped in front of it.  And what continues an expression may not stand behind a condition,
for a condition takes all that it can: so no operand on the left may end in one.
-/
import SelectPlanner.Ast
import SelectPlanner.Double.Decimal
import SelectPlanner.Token.Sequence

namespace SelectPlanner

/-! ### Tokens as they come of a text -/

namespace Token

variable {t : Token} {ts rest : List Token} {word symbol : String}

/-- A keyword is spelt as the language has it. -/
def Spelt (t : Token) : Prop := t.kind = .keyword → t.text ∈ keywords

theorem spelt_ofWord (word : List Char) : (ofWord word).Spelt := by
  intro hkind
  by_cases h : keywords.contains (String.ofList (word.map Char.toUpper))
  · rw [ofWord, if_pos h]
    exact List.contains_iff_mem.mp h
  · rw [ofWord, if_neg h] at hkind
    cases hkind

theorem spelt_of_token? {l : Lexeme} (h : l.token? = some t) : t.Spelt := by
  unfold Lexeme.token? at h
  cases hkind : l.kind with
  | word =>
      rw [hkind] at h
      obtain rfl := Option.some.inj h
      exact spelt_ofWord l.text
  | gap | comment =>
      rw [hkind] at h
      cases h
  | long | double | quoted | operator | punctuation =>
      rw [hkind] at h
      obtain rfl := Option.some.inj h
      exact nofun

/-- The keywords of a text are in upper case, however they are written. -/
theorem spelt_of_ofText {sql : String} (h : ofText sql = .ok ts) : ∀ t ∈ ts, t.Spelt := by
  intro t ht
  unfold ofText at h
  split at h
  · obtain rfl := Except.ok.inj h
    obtain ⟨l, -, hl⟩ := List.mem_filterMap.mp ht
    exact spelt_of_token? hl
  · cases h

/-- Looked for in any case, a keyword is found in its own. -/
theorem eq_of_isKeyword (ht : t.Spelt) (hword : word ∈ keywords) (h : t.isKeyword word = true) :
    t = ⟨.keyword, word⟩ := by
  obtain ⟨kind, text⟩ := t
  have distinct : ∀ a ∈ keywords, ∀ b ∈ keywords, sameWord a b = true → a = b := by decide
  simp only [isKeyword, Bool.and_eq_true, beq_iff_eq] at h
  obtain ⟨rfl, same⟩ := h
  rw [distinct text (ht rfl) word hword same]

theorem eq_of_afterKeyword? (hts : ∀ t ∈ ts, t.Spelt) (hword : word ∈ keywords)
    (h : afterKeyword? word ts = some rest) : ts = ⟨.keyword, word⟩ :: rest := by
  cases ts with
  | nil => cases h
  | cons t ts =>
      by_cases hkey : t.isKeyword word = true
      · rw [afterKeyword?, if_pos hkey] at h
        rw [eq_of_isKeyword (hts t (by simp)) hword hkey, Option.some.inj h]
      · rw [afterKeyword?, if_neg hkey] at h
        cases h

theorem eq_of_afterPunctuation? (h : afterPunctuation? symbol ts = some rest) :
    ts = ⟨.punctuation, symbol⟩ :: rest := by
  cases ts with
  | nil => cases h
  | cons t ts =>
      by_cases hsep : t.isPunctuation symbol = true
      · rw [afterPunctuation?, if_pos hsep] at h
        obtain ⟨kind, text⟩ := t
        simp only [isPunctuation, Bool.and_eq_true, beq_iff_eq] at hsep
        obtain ⟨rfl, rfl⟩ := hsep
        rw [Option.some.inj h]
      · rw [afterPunctuation?, if_neg hsep] at h
        cases h

/-! ### Tokens between and behind expressions -/

/-- The token of an operator: a word or a symbol. -/
def ofInfix (op : String) : Token :=
  if op = "AND" ∨ op = "OR" then ⟨.keyword, op⟩ else ⟨.operator, op⟩

/-- The word before a new name. -/
def asWord : Token := ⟨.keyword, "AS"⟩

/-- Whether a token stands between two expressions. -/
def IsInfix (t : Token) : Prop :=
  t.kind = .operator ∨ t.kind = .keyword ∧ (t.text = "AND" ∨ t.text = "OR")

/-- A token that continues an expression is the operator of its text. -/
theorem ofInfix_text (h : t.IsInfix) (hpos : 0 < t.precedence) : ofInfix t.text = t := by
  obtain ⟨kind, text⟩ := t
  rcases h with hkind | ⟨hkind, htext⟩
  · obtain rfl : kind = .operator := hkind
    have symbol : ¬ (text = "AND" ∨ text = "OR") := by
      intro hword
      rcases hword with rfl | rfl
      · exact absurd hpos (by decide)
      · exact absurd hpos (by decide)
    exact if_neg symbol
  · obtain rfl : kind = .keyword := hkind
    exact if_pos htext

/-- Every operator binds more tightly than a renaming. -/
theorem asWord_lt_of_isInfix (h : t.IsInfix) (hpos : 0 < t.precedence) :
    asWord.precedence < t.precedence := by
  obtain ⟨kind, text⟩ := t
  show 10 < precedence ⟨kind, text⟩
  rcases h with hkind | ⟨hkind, rfl | rfl⟩
  · obtain rfl : kind = .operator := hkind
    unfold precedence at hpos ⊢
    dsimp only at hpos ⊢
    split at hpos
    all_goals omega
  · obtain rfl : kind = .keyword := hkind
    decide
  · obtain rfl : kind = .keyword := hkind
    decide

end Token

/-! ### Trees as tokens -/

mutual

/-- The tokens that a tree is written with, in order and without parentheses. -/
inductive Ast.Flattens : Ast → List Token → Prop where
  | identifier (name : String) : Flattens (.identifier name) [⟨.identifier, name⟩]
  | string (value : String) : Flattens (.string value) [⟨.string, value⟩]
  /-- Digits that read as the number. -/
  | long {text : String} {value : Int64} (h : Numeral.long? text.toList = some value) :
      Flattens (.long value) [⟨.long, text⟩]
  /-- A decimal that reads as the number. -/
  | double {text : String} {value : Double} (h : Double.ofText? text.toList = some value) :
      Flattens (.double value) [⟨.double, text⟩]
  | binary {left right : Ast} {ls rs : List Token} (op : String) (hl : Flattens left ls)
      (hr : Flattens right rs) : Flattens (.binary left op right) (ls ++ Token.ofInfix op :: rs)
  | renamed {expr : Ast} {ts : List Token} (name : String) (h : Flattens expr ts) :
      Flattens (.renamed expr name) (ts ++ [Token.asWord, ⟨.identifier, name⟩])
  | select {projection : List Ast} {ts : List Token} (table : String)
      (h : FlattensItems projection ts) :
      Flattens (.select projection none table)
        (⟨.keyword, "SELECT"⟩ :: (ts ++ [⟨.keyword, "FROM"⟩, ⟨.identifier, table⟩]))
  | selectWhere {projection : List Ast} {condition : Ast} {ts cs : List Token} (table : String)
      (h : FlattensItems projection ts) (hc : Flattens condition cs) :
      Flattens (.select projection (some condition) table)
        (⟨.keyword, "SELECT"⟩ ::
          (ts ++ ⟨.keyword, "FROM"⟩ :: ⟨.identifier, table⟩ :: ⟨.keyword, "WHERE"⟩ :: cs))

/-- The tokens that a SELECT list is written with. -/
inductive Ast.FlattensItems : List Ast → List Token → Prop where
  | last {item : Ast} {ts : List Token} (h : Flattens item ts) : FlattensItems [item] ts
  | more {item : Ast} {items : List Ast} {ts rest : List Token} (h : Flattens item ts)
      (hs : FlattensItems items rest) :
      FlattensItems (item :: items) (ts ++ ⟨.punctuation, ","⟩ :: rest)

end

namespace Ast

theorem FlattensItems.ne_nil {items : List Ast} {ts : List Token} (h : FlattensItems items ts) :
    items ≠ [] := by
  cases h with
  | last h => exact List.cons_ne_nil _ _
  | more h hs => exact List.cons_ne_nil _ _

/-- No tree is written with nothing. -/
theorem Flattens.ne_nil {e : Ast} {ts : List Token} (h : e.Flattens ts) : ts ≠ [] := by
  cases h with
  | identifier | string | long | double => exact List.cons_ne_nil _ _
  | binary op hl hr => simp
  | renamed name h => simp
  | select table h => simp
  | selectWhere table h hc => simp

/-! ### Trees that need no parentheses -/

/-- A name or a literal. -/
def Leaf : Ast → Prop
  | identifier _ | string _ | long _ | double _ => True
  | binary .. | renamed .. | select .. => False

/-- The tokens that hold an expression together along its left edge, from the root down. -/
def spine : Ast → List Token
  | binary left op _ => Token.ofInfix op :: left.spine
  | renamed expr _ => Token.asWord :: expr.spine
  | identifier _ | string _ | long _ | double _ | select .. => []

/-- Whether the right edge of an expression ends in a condition. -/
def endsInWhere : Ast → Bool
  | binary _ _ right => right.endsInWhere
  | select _ condition _ => condition.isSome
  | identifier _ | string _ | long _ | double _ | renamed .. => false

/-- An operator at the root binds at least this tightly. -/
def Binds (q : Nat) : Ast → Prop
  | binary _ op _ => q ≤ (Token.ofInfix op).precedence
  | identifier _ | string _ | long _ | double _ | renamed .. | select .. => True

/-- The tree is the one that precedence asks for, everywhere inside. -/
inductive Bracketed : Ast → Prop where
  | identifier (name : String) : Bracketed (.identifier name)
  | string (value : String) : Bracketed (.string value)
  | long (value : Int64) : Bracketed (.long value)
  | double (value : Double) : Bracketed (.double value)
  | binary {left right : Ast} {op : String} (hl : Bracketed left) (hr : Bracketed right)
      (noRenaming : Token.asWord ∉ right.spine)
      (tighter : ∀ t ∈ right.spine, (Token.ofInfix op).precedence < t.precedence)
      (grouped : left.Binds (Token.ofInfix op).precedence)
      (noWhere : left.endsInWhere = false) : Bracketed (.binary left op right)
  | renamed {expr : Ast} {name : String} (h : Bracketed expr)
      (noWhere : expr.endsInWhere = false) : Bracketed (.renamed expr name)
  | select {projection : List Ast} {condition : Option Ast} {table : String}
      (nonempty : projection ≠ []) (hitems : ∀ item ∈ projection, Bracketed item)
      (hcondition : ∀ c ∈ condition, Bracketed c) :
      Bracketed (.select projection condition table)

end Ast

end SelectPlanner
