/-
The grammar of statements.

    statement  ::= expression [;]
    expression ::= operand { op operand | AS name }
    operand    ::= leaf | SELECT items FROM name [WHERE expression]
    items      ::= expression { , expression }

Which operators and names of an expression belong together is not for the grammar to say, nor to
which of several nested SELECTs a condition belongs.

`Derives` has the last three symbols as an index and no families of their own, for then one
induction goes through all of them.

Whatever a tree is written with is an expression, as long as its operators bind.  The grammar
forgets how the tree is bracketed: `Derives.append` moves a right operand into the row.
-/
import Mathlib
import SelectPlanner.Proofs.CanonicalTrees

namespace SelectPlanner.Grammar

/-- A token that is an operand by itself. -/
inductive Leaf : Token → Prop where
  | identifier (name : String) : Leaf ⟨.identifier, name⟩
  | string (value : String) : Leaf ⟨.string, value⟩
  /-- Digits, unless their value is too large. -/
  | long {text : String} {n : Nat} (digits : Numeral.natural? text.toList = some n)
      (small : n ≤ 2 ^ 63 - 1) : Leaf ⟨.long, text⟩
  | double (text : String) : Leaf ⟨.double, text⟩

/-- What a part of a statement can be. -/
inductive Symbol where
  | operand
  | expression
  | items

/-- The parts of statements. -/
inductive Derives : Symbol → List Token → Prop where
  | leaf {t : Token} (h : Leaf t) : Derives .operand [t]
  | select {ts : List Token} (table : String) (h : Derives .items ts) :
      Derives .operand
        (⟨.keyword, "SELECT"⟩ :: (ts ++ [⟨.keyword, "FROM"⟩, ⟨.identifier, table⟩]))
  | selectWhere {ts cs : List Token} (table : String) (h : Derives .items ts)
      (hc : Derives .expression cs) :
      Derives .operand
        (⟨.keyword, "SELECT"⟩ ::
          (ts ++ ⟨.keyword, "FROM"⟩ :: ⟨.identifier, table⟩ :: ⟨.keyword, "WHERE"⟩ :: cs))
  | single {ts : List Token} (h : Derives .operand ts) : Derives .expression ts
  | joined {ts us : List Token} {op : String} (h : Derives .expression ts)
      (known : op ∈ Ast.infixes) (hr : Derives .operand us) :
      Derives .expression (ts ++ Token.ofInfix op :: us)
  | renamed {ts : List Token} (name : String) (h : Derives .expression ts) :
      Derives .expression (ts ++ [Token.asWord, ⟨.identifier, name⟩])
  | last {ts : List Token} (h : Derives .expression ts) : Derives .items ts
  | more {ts us : List Token} (h : Derives .expression ts) (hs : Derives .items us) :
      Derives .items (ts ++ ⟨.punctuation, ","⟩ :: us)

/-- A statement. -/
inductive Statement : List Token → Prop where
  | bare {ts : List Token} (h : Derives .expression ts) : Statement ts
  | closed {ts : List Token} (h : Derives .expression ts) :
      Statement (ts ++ [⟨.punctuation, ";"⟩])

/-! ### Token lists that are no statements -/

/-- Symbols of texts that have no place in statements. -/
def foreign : List Token := [⟨.operator, "%"⟩, ⟨.punctuation, "("⟩, ⟨.punctuation, ")"⟩]

/-- What comes next is no item of a SELECT list. -/
def NoItem (rest : List Token) : Prop :=
  rest = [] ∨ ∃ after, rest = ⟨.keyword, "FROM"⟩ :: after ∨ rest = ⟨.punctuation, ";"⟩ :: after

/-- Some ways of not being a statement, whatever stands around. -/
inductive Malformed : List Token → Prop where
  | foreign {t : Token} {ts : List Token} (ht : t ∈ ts) (h : t ∈ Grammar.foreign) : Malformed ts
  | trailingComma (front : List Token) {rest : List Token} (h : NoItem rest) :
      Malformed (front ++ ⟨.punctuation, ","⟩ :: rest)
  | emptyList (front : List Token) {rest : List Token} (h : NoItem rest) :
      Malformed (front ++ ⟨.keyword, "SELECT"⟩ :: rest)
  | semicolons (front middle back : List Token) :
      Malformed (front ++ ⟨.punctuation, ";"⟩ :: (middle ++ ⟨.punctuation, ";"⟩ :: back))

/-! ### What trees are written with -/

/-- The right side of an operator may go on. -/
theorem Derives.append {ls rs : List Token} {op : String} (hl : Derives .expression ls)
    (known : op ∈ Ast.infixes) (hr : Derives .expression rs) :
    Derives .expression (ls ++ Token.ofInfix op :: rs) := by
  generalize hsymbol : Symbol.expression = symbol at hr
  induction hr with
  | single h => exact .joined hl known h
  | @joined ts us op' h known' hr ih =>
      have whole := Derives.joined (ih hsymbol) known' hr
      rwa [List.append_assoc, List.cons_append] at whole
  | renamed name h ih =>
      have whole := Derives.renamed name (ih hsymbol)
      rwa [List.append_assoc, List.cons_append] at whole
  | leaf | select | selectWhere | last | more => cases hsymbol

theorem leaf_long {text : String} {value : Int64} (ht : (⟨.long, text⟩ : Token).Lexical)
    (h : Numeral.long? text.toList = some value) : Leaf ⟨.long, text⟩ := by
  obtain ⟨hne, hdigits⟩ := Lexeme.mem_long.mp (ht.long rfl)
  have hnatural := Numeral.natural?_of_digits hne hdigits
  have hsmall := (Numeral.exists_long?_iff hnatural).mp ⟨value, h⟩
  exact .long hnatural (by omega)

/-- A token as texts have it, and an operator only if it binds. -/
structure Legal (t : Token) : Prop where
  lexical : t.Lexical
  binds : t.kind = .operator → 0 < t.precedence

theorem known_of_legal {op : String} (h : Legal (Token.ofInfix op)) : op ∈ Ast.infixes := by
  by_cases hword : op = "AND" ∨ op = "OR"
  · rcases hword with rfl | rfl <;> decide
  · have hkind : (Token.ofInfix op).kind = .operator := by rw [Token.ofInfix, if_neg hword]
    exact Ast.precedence_ofInfix_pos_iff.mp (h.binds hkind)

/-- Trees written with fewer than `n` tokens are written with expressions. -/
def DerivedBelow (n : Nat) : Prop :=
  ∀ (e : Ast) (ts : List Token), ts.length < n → e.Flattens ts → (∀ t ∈ ts, Legal t) →
    Derives .expression ts

theorem derives_items {n : Nat} (derived : DerivedBelow n) {items : List Ast} {ts : List Token}
    (hlen : ts.length < n) (h : Ast.FlattensItems items ts) (hts : ∀ t ∈ ts, Legal t) :
    Derives .items ts := by
  induction items generalizing ts with
  | nil => cases h
  | cons item items ih =>
      cases h with
      | last h => exact .last (derived item ts hlen h hts)
      | @more _ _ ts us h hs =>
          rw [List.length_append, List.length_cons] at hlen
          simp only [List.forall_mem_append, List.forall_mem_cons] at hts
          exact .more (derived item ts (by omega) h hts.1) (ih (by omega) hs hts.2.2)

theorem derivedBelow (n : Nat) : DerivedBelow n := by
  induction n with
  | zero =>
      intro e ts hlen
      omega
  | succ n ih =>
      intro e ts hlen h hts
      cases h with
      | identifier name => exact .single (.leaf (.identifier name))
      | string value => exact .single (.leaf (.string value))
      | long hread => exact .single (.leaf (leaf_long (hts _ List.mem_cons_self).lexical hread))
      | double hread => exact .single (.leaf (.double _))
      | @binary left right ls rs op hl hr =>
          rw [List.length_append, List.length_cons] at hlen
          simp only [List.forall_mem_append, List.forall_mem_cons] at hts
          obtain ⟨hls, hop, hrs⟩ := hts
          exact (ih left ls (by omega) hl hls).append (known_of_legal hop)
            (ih right rs (by omega) hr hrs)
      | @renamed expr ts name h =>
          rw [List.length_append, List.length_cons] at hlen
          exact .renamed name (ih expr ts (by omega) h (List.forall_mem_append.mp hts).1)
      | @select projection ts table h =>
          simp only [List.length_append, List.length_cons] at hlen
          simp only [List.forall_mem_append, List.forall_mem_cons] at hts
          exact .single (.select table (derives_items ih (by omega) h hts.2.1))
      | @selectWhere projection condition ts cs table h hc =>
          simp only [List.length_append, List.length_cons] at hlen
          simp only [List.forall_mem_append, List.forall_mem_cons] at hts
          obtain ⟨-, hitems, -, -, -, hcondition⟩ := hts
          exact .single (.selectWhere table (derives_items ih (by omega) h hitems)
            (ih condition cs (by omega) hc hcondition))

/-- Whatever a tree is written with is an expression. -/
theorem derives_of_flattens {e : Ast} {ts : List Token} (h : e.Flattens ts)
    (hts : ∀ t ∈ ts, Legal t) : Derives .expression ts :=
  derivedBelow (ts.length + 1) e ts (Nat.lt_succ_self _) h hts

end SelectPlanner.Grammar
