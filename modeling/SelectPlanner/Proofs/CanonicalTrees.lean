/-
Trees that can be written without parentheses.

A tree is canonical when it is bracketed as precedence asks for and each of its nodes can be
written: its operators are those of the language, and its numbers have no sign.  What is asked of
nodes is asked of the list of all of them, which goes through SELECT lists and conditions as well.

Every canonical tree is written with tokens as a text has them.  `exists_flattens` takes the fewest
digits for whole numbers, and for the others any digits that read as them.
-/
import Mathlib
import SelectPlanner.Proofs.LexicalTokens

namespace SelectPlanner

namespace Ast

/-! ### The nodes of a tree -/

mutual

/-- The tree and all trees inside it, each before those inside it, from left to right. -/
def nodes : Ast → List Ast
  | identifier name => [identifier name]
  | binary left op right => binary left op right :: (left.nodes ++ right.nodes)
  | string value => [string value]
  | long value => [long value]
  | double value => [double value]
  | renamed expr name => renamed expr name :: expr.nodes
  | select projection none table => select projection none table :: nodesOf projection
  | select projection (some condition) table =>
    select projection (some condition) table :: (nodesOf projection ++ condition.nodes)

/-- The nodes of trees in a row. -/
def nodesOf : List Ast → List Ast
  | [] => []
  | e :: es => e.nodes ++ nodesOf es

end

variable {left right item : Ast} {projection : List Ast} {table : String}

/-- A tree is the first of its nodes. -/
theorem exists_nodes_eq (e : Ast) : ∃ inside, e.nodes = e :: inside := by
  cases e with
  | identifier | binary | string | long | double | renamed => exact ⟨_, by rw [nodes]⟩
  | select projection condition table => cases condition <;> exact ⟨_, by rw [nodes]⟩

theorem mem_nodes (e : Ast) : e ∈ e.nodes := by
  obtain ⟨inside, h⟩ := e.exists_nodes_eq
  rw [h]
  exact List.mem_cons_self

theorem nodes_left (left : Ast) (op : String) (right : Ast) :
    left.nodes ⊆ (binary left op right).nodes := by
  intro n hn
  rw [nodes]
  exact List.mem_cons_of_mem _ (List.mem_append_left _ hn)

theorem nodes_right (left : Ast) (op : String) (right : Ast) :
    right.nodes ⊆ (binary left op right).nodes := by
  intro n hn
  rw [nodes]
  exact List.mem_cons_of_mem _ (List.mem_append_right _ hn)

theorem nodes_renamed (expr : Ast) (name : String) : expr.nodes ⊆ (renamed expr name).nodes := by
  intro n hn
  rw [nodes]
  exact List.mem_cons_of_mem _ hn

theorem mem_nodesOf {n : Ast} : n ∈ nodesOf projection ↔ ∃ item ∈ projection, n ∈ item.nodes := by
  induction projection with
  | nil => simp [nodesOf]
  | cons item items ih => rw [nodesOf, List.mem_append, ih, List.exists_mem_cons_iff]

theorem nodes_of_mem (h : item ∈ projection) : item.nodes ⊆ nodesOf projection := by
  intro n hn
  exact mem_nodesOf.mpr ⟨item, h, hn⟩

/-- What stands in a statement is the statement itself, or in an item or the condition. -/
theorem mem_nodes_select {n : Ast} {condition : Option Ast} :
    n ∈ (select projection condition table).nodes ↔ n = select projection condition table ∨
      n ∈ nodesOf projection ∨ ∃ c ∈ condition, n ∈ c.nodes := by
  cases condition <;> simp [nodes]

theorem nodesOf_select (projection : List Ast) (condition : Option Ast) (table : String) :
    nodesOf projection ⊆ (select projection condition table).nodes := by
  intro n hn
  exact mem_nodes_select.mpr (Or.inr (Or.inl hn))

theorem nodes_condition (projection : List Ast) (c : Ast) (table : String) :
    c.nodes ⊆ (select projection (some c) table).nodes := by
  intro n hn
  exact mem_nodes_select.mpr (Or.inr (Or.inr ⟨c, rfl, hn⟩))

/-! ### Canonical trees -/

/-- The operators between two expressions. -/
def infixes : List String := ["<", "<=", "=", "!=", ">=", ">", "+", "-", "*", "/", "AND", "OR"]

/-- All these nodes can be written. -/
structure Writable (nodes : List Ast) : Prop where
  /-- Every operator is one of the language. -/
  known : ∀ left op right, binary left op right ∈ nodes → op ∈ infixes
  /-- No whole number has a sign. -/
  longs : ∀ value, long value ∈ nodes → 0 ≤ value.toInt
  /-- Every other number is what digits with a point among them read as. -/
  doubles : ∀ value, double value ∈ nodes → ∃ whole ∈ Lexeme.wholePattern,
    ∃ part ∈ Lexeme.wholePattern, Double.ofText? (whole ++ '.' :: part) = some value

theorem Writable.mono {ns ms : List Ast} (h : Writable ms) (hsub : ns ⊆ ms) : Writable ns :=
  ⟨fun left op right hn => h.known left op right (hsub hn), fun value hn => h.longs value (hsub hn),
    fun value hn => h.doubles value (hsub hn)⟩

/-- A tree that is bracketed as precedence asks for, and whose nodes can be written. -/
structure Canonical (e : Ast) : Prop where
  bracketed : e.Bracketed
  writable : Writable e.nodes

theorem Canonical.operands {op : String} (h : (binary left op right).Canonical) :
    left.Canonical ∧ right.Canonical := by
  cases h.bracketed with
  | binary hl hr _ _ _ _ =>
      exact ⟨⟨hl, h.writable.mono (nodes_left left op right)⟩,
        ⟨hr, h.writable.mono (nodes_right left op right)⟩⟩

theorem Canonical.expr {expr : Ast} {name : String} (h : (renamed expr name).Canonical) :
    expr.Canonical := by
  cases h.bracketed with
  | renamed he _ => exact ⟨he, h.writable.mono (nodes_renamed expr name)⟩

theorem Canonical.items {condition : Option Ast}
    (h : (select projection condition table).Canonical) : ∀ item ∈ projection, item.Canonical := by
  cases h.bracketed with
  | select _ hitems _ =>
      intro item hitem
      refine ⟨hitems item hitem, h.writable.mono ?_⟩
      intro n hn
      exact nodesOf_select projection condition table (nodes_of_mem hitem hn)

theorem Canonical.condition {c : Ast} (h : (select projection (some c) table).Canonical) :
    c.Canonical := by
  cases h.bracketed with
  | select _ _ hcondition =>
      exact ⟨hcondition c rfl, h.writable.mono (nodes_condition projection c table)⟩

/-! ### Operators of the language -/

theorem isInfix_ofInfix {op : String} : (Token.ofInfix op).IsInfix := by
  unfold Token.ofInfix
  by_cases h : op = "AND" ∨ op = "OR"
  · rw [if_pos h]
    exact Or.inr ⟨rfl, h⟩
  · rw [if_neg h]
    exact Or.inl rfl

theorem text_ofInfix (op : String) : (Token.ofInfix op).text = op := by
  unfold Token.ofInfix
  by_cases h : op = "AND" ∨ op = "OR"
  · rw [if_pos h]
  · rw [if_neg h]

/-- An operator is one of the language if it binds at all. -/
theorem precedence_ofInfix_pos_iff {op : String} :
    0 < (Token.ofInfix op).precedence ↔ op ∈ infixes := by
  constructor
  · intro hpos
    by_cases h : op = "AND" ∨ op = "OR"
    · rcases h with rfl | rfl <;> decide
    · rw [Token.ofInfix, if_neg h] at hpos
      unfold Token.precedence at hpos
      dsimp only at hpos
      split at hpos
      case h_11 => exact absurd hpos (Nat.lt_irrefl 0)
      all_goals decide
  · intro h
    have table : ∀ op ∈ infixes, 0 < (Token.ofInfix op).precedence := by decide
    exact table op h

theorem spine_pos {e : Ast} (h : Writable e.nodes) : ∀ t ∈ e.spine, 0 < t.precedence := by
  induction e using spine.induct with
  | case1 left op right ih =>
      intro t ht
      rcases List.mem_cons.mp ht with rfl | ht
      · have hop : op ∈ infixes := h.known left op right (mem_nodes _)
        exact precedence_ofInfix_pos_iff.mpr hop
      · exact ih (h.mono (nodes_left left op right)) t ht
  | case2 expr name ih =>
      intro t ht
      rcases List.mem_cons.mp ht with rfl | ht
      · decide
      · exact ih (h.mono (nodes_renamed expr name)) t ht
  | case3 | case4 | case5 | case6 | case7 => exact nofun

/-! ### Every canonical tree can be written -/

/-- A whole number without a sign is read from the digits that it is printed with. -/
theorem long?_renderInt {value : Int64} (h : 0 ≤ value.toInt) :
    (Numeral.renderInt value.toInt).toList ∈ Lexeme.Kind.long.pattern ∧
      Numeral.long? (Numeral.renderInt value.toInt).toList = some value := by
  obtain ⟨n, hn⟩ := Int.eq_ofNat_of_zero_le h
  have hsmall : n < 0x8000000000000000 := by
    have hlt := value.toInt_lt
    omega
  have hvalue : Int64.ofNat n = value := by
    rw [← Int64.ofInt_toInt value, hn]
    rfl
  have hdigits : (Numeral.renderInt value.toInt).toList = Numeral.digits n := by
    rw [hn]
    exact Numeral.toList_render n
  rw [hdigits]
  refine ⟨Lexeme.mem_long.mpr ⟨Numeral.digits_ne_nil n, ?_⟩, ?_⟩
  · intro c hc
    exact Lexeme.isDigit_iff.mp (Numeral.isDigit_of_mem_digits hc)
  · rw [Numeral.long?_digits hsmall, hvalue]

theorem exists_flattens_long {value : Int64} (h : 0 ≤ value.toInt) :
    ∃ t : Token, (long value).Flattens [t] ∧ t.Lexical := by
  obtain ⟨hdigits, hread⟩ := long?_renderInt h
  exact ⟨⟨.long, Numeral.renderInt value.toInt⟩, .long hread, nofun, fun _ => hdigits, nofun⟩

theorem exists_flattens_double {value : Double} {whole part : List Char}
    (hwhole : whole ∈ Lexeme.wholePattern) (hpart : part ∈ Lexeme.wholePattern)
    (h : Double.ofText? (whole ++ '.' :: part) = some value) :
    ∃ t : Token, (double value).Flattens [t] ∧ t.Lexical := by
  refine ⟨⟨.double, String.ofList (whole ++ '.' :: part)⟩, .double ?_, nofun, nofun, fun _ => ?_⟩
  · rwa [String.toList_ofList]
  · rw [String.toList_ofList]
    exact Lexeme.mem_double.mpr
      ⟨whole, part, [], by rw [List.append_nil], hwhole, hpart, Or.inl rfl⟩

theorem lexical_keyword {name : String} (h : name ∈ Token.keywords) :
    (⟨.keyword, name⟩ : Token).Lexical :=
  Token.lexical_of_spelt (fun _ => h) nofun nofun

theorem lexical_ofInfix (op : String) : (Token.ofInfix op).Lexical := by
  unfold Token.ofInfix
  by_cases h : op = "AND" ∨ op = "OR"
  · rw [if_pos h]
    exact lexical_keyword (by rcases h with rfl | rfl <;> decide)
  · rw [if_neg h]
    exact Token.lexical_of_spelt nofun nofun nofun

theorem exists_flattensItems {items : List Ast} (hne : items ≠ [])
    (h : ∀ item ∈ items, ∃ ts, item.Flattens ts ∧ ∀ t ∈ ts, t.Lexical) :
    ∃ ts, FlattensItems items ts ∧ ∀ t ∈ ts, t.Lexical := by
  induction items with
  | nil => exact absurd rfl hne
  | cons item items ih =>
      obtain ⟨⟨ts, hts, hlexical⟩, hitems⟩ := List.forall_mem_cons.mp h
      by_cases hlast : items = []
      · subst hlast
        exact ⟨ts, .last hts, hlexical⟩
      · obtain ⟨us, hus, hlexical'⟩ := ih hlast hitems
        refine ⟨_, .more hts hus, List.forall_mem_append.mpr ⟨hlexical, ?_⟩⟩
        exact List.forall_mem_cons.mpr ⟨Token.lexical_of_spelt nofun nofun nofun, hlexical'⟩

theorem exists_flattens {e : Ast} (hb : e.Bracketed) (hw : Writable e.nodes) :
    ∃ ts, e.Flattens ts ∧ ∀ t ∈ ts, t.Lexical := by
  have name : ∀ n : String, (⟨.identifier, n⟩ : Token).Lexical := fun n =>
    Token.lexical_of_spelt nofun nofun nofun
  induction hb with
  | identifier n => exact ⟨_, .identifier n, List.forall_mem_singleton.mpr (name n)⟩
  | string value =>
      exact ⟨_, .string value,
        List.forall_mem_singleton.mpr (Token.lexical_of_spelt nofun nofun nofun)⟩
  | long value =>
      obtain ⟨t, ht, hlexical⟩ := exists_flattens_long (hw.longs value (mem_nodes _))
      exact ⟨[t], ht, List.forall_mem_singleton.mpr hlexical⟩
  | double value =>
      obtain ⟨whole, hwhole, part, hpart, hread⟩ := hw.doubles value (mem_nodes _)
      obtain ⟨t, ht, hlexical⟩ := exists_flattens_double hwhole hpart hread
      exact ⟨[t], ht, List.forall_mem_singleton.mpr hlexical⟩
  | @binary left right op hl hr _ _ _ _ ihl ihr =>
      obtain ⟨ls, hls, hlexical⟩ := ihl (hw.mono (nodes_left left op right))
      obtain ⟨rs, hrs, hlexical'⟩ := ihr (hw.mono (nodes_right left op right))
      refine ⟨_, .binary op hls hrs, List.forall_mem_append.mpr ⟨hlexical, ?_⟩⟩
      exact List.forall_mem_cons.mpr ⟨lexical_ofInfix op, hlexical'⟩
  | @renamed expr n h _ ih =>
      obtain ⟨ts, hts, hlexical⟩ := ih (hw.mono (nodes_renamed expr n))
      refine ⟨_, .renamed n hts, List.forall_mem_append.mpr ⟨hlexical, ?_⟩⟩
      exact List.forall_mem_cons.mpr
        ⟨lexical_keyword (by decide), List.forall_mem_singleton.mpr (name n)⟩
  | @select projection condition table hne hitems hcondition ihitems ihcondition =>
      have hprojection : ∀ item ∈ projection, ∃ ts, item.Flattens ts ∧ ∀ t ∈ ts, t.Lexical := by
        intro item hitem
        refine ihitems item hitem (hw.mono ?_)
        intro n hn
        exact nodesOf_select projection condition table (nodes_of_mem hitem hn)
      obtain ⟨ts, hts, hlexical⟩ := exists_flattensItems hne hprojection
      have hselect : (⟨.keyword, "SELECT"⟩ : Token).Lexical := lexical_keyword (by decide)
      have hfrom : (⟨.keyword, "FROM"⟩ : Token).Lexical := lexical_keyword (by decide)
      have hwhere : (⟨.keyword, "WHERE"⟩ : Token).Lexical := lexical_keyword (by decide)
      cases condition with
      | none =>
          refine ⟨_, .select table hts, List.forall_mem_cons.mpr ⟨hselect, ?_⟩⟩
          refine List.forall_mem_append.mpr ⟨hlexical, List.forall_mem_cons.mpr ⟨hfrom, ?_⟩⟩
          exact List.forall_mem_singleton.mpr (name table)
      | some c =>
          obtain ⟨cs, hcs, hlexical'⟩ := ihcondition c rfl
            (hw.mono (nodes_condition projection c table))
          refine ⟨_, .selectWhere table hts hcs, List.forall_mem_cons.mpr ⟨hselect, ?_⟩⟩
          refine List.forall_mem_append.mpr ⟨hlexical, List.forall_mem_cons.mpr ⟨hfrom, ?_⟩⟩
          exact List.forall_mem_cons.mpr ⟨name table, List.forall_mem_cons.mpr ⟨hwhere, hlexical'⟩⟩

end Ast

end SelectPlanner
