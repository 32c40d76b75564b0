/-
Lowering loses nothing, and is undone by writing operators by their symbols.

Every expression of a plan is written as one tree, and that tree lowers to it again; no other tree
does, so a tree and what it lowers to say the same.  Not every tree lowers.  Two kinds of node have no
counterpart in plans, an operator that plans lack and a SELECT, and a tree that has one of them is
refused.  The complaint is about the first of these nodes in the order in which `nodes` lists them, a
node before what is inside it and the left before the right: lowering looks at the operator of a node
before it looks at the operands.
-/
import SelectPlanner.Proofs.CanonicalTrees
import SelectPlanner.Proofs.Pushdown

namespace SelectPlanner

/-! ### The operators of plans by their symbols -/

/-- How the operators of plans are written. -/
def Operator.texts : List String := ["=", "!=", ">", ">=", "<", "<=", "AND", "OR", "*"]

theorem Operator.symbol_mem_texts (op : Operator) : op.symbol ∈ texts := by
  rcases op with op | op | op <;> cases op <;> decide

theorem Operator.mem_texts_of_ofSymbol? {text : String} {op : Operator}
    (h : ofSymbol? text = some op) : text ∈ texts :=
  symbol_of_ofSymbol? h ▸ op.symbol_mem_texts

theorem Operator.ofSymbol?_eq_none {text : String} : ofSymbol? text = none ↔ text ∉ texts := by
  refine ⟨fun h hmem => ?_, fun h => ?_⟩
  · have found : ∀ text ∈ texts, (ofSymbol? text).isSome := by decide
    have hsome := found text hmem
    rw [h] at hsome
    cases hsome
  · cases hop : ofSymbol? text with
    | none => rfl
    | some op => exact absurd (mem_texts_of_ofSymbol? hop) h

/-! ### Writing an expression as a tree -/

/-- The tree that an expression is written as. -/
def Expr.raise : Expr → Ast
  | column name => .identifier name
  | renamed expr name => .renamed expr.raise name
  | string value => .string value
  | long value => .long value
  | double value => .double value
  | binary op left right => .binary left.raise op.symbol right.raise

/-- The names in the tree are the columns of the expression. -/
theorem Expr.identifier_mem_nodes (x : Expr) (name : String) :
    Ast.identifier name ∈ x.raise.nodes ↔ name ∈ x.columns := by
  induction x with
  | column other => simp [raise, Ast.nodes, columns]
  | renamed expr other ih => simpa [raise, Ast.nodes, columns] using ih
  | string value | long value | double value => simp [raise, Ast.nodes, columns]
  | binary op left right ihl ihr =>
      simp only [raise, Ast.nodes, columns, List.mem_cons, List.mem_append, reduceCtorEq, false_or]
      rw [ihl, ihr]

namespace Ast

theorem lower_raise (x : Expr) : x.raise.lower = .ok x := by
  induction x with
  | column | string | long | double => rfl
  | renamed expr name ih =>
      rw [Expr.raise, lower, ih]
      rfl
  | binary op left right ihl ihr =>
      simp only [Expr.raise, lower, Operator.ofSymbol?_symbol, ihl, ihr]
      rfl

theorem raise_of_lower {e : Ast} {x : Expr} (h : e.lower = .ok x) : x.raise = e := by
  fun_induction Ast.lower e generalizing x with
  | case1 | case2 | case3 | case4 =>
      obtain rfl := Except.ok.inj h
      rfl
  | case5 | case6 | case9 => cases h
  | case7 left symbol right op hop lowered hl ihl ihr =>
      obtain ⟨y, hy, rfl⟩ := map_eq_ok.mp h
      rw [Expr.raise, Operator.symbol_of_ofSymbol? hop, ihl hl, ihr hy]
  | case8 expr name ih =>
      obtain ⟨y, hy, rfl⟩ := map_eq_ok.mp h
      rw [Expr.raise, ih hy]

/-! ### The first node that is refused -/

/-- Why a tree is refused for its own node, whatever is inside it. -/
def refusal? : Ast → Option Error
  | binary _ op _ => if op ∈ Operator.texts then none else some (.unsupportedOperator op)
  | select projection selection table =>
    some (.unsupportedExpression (select projection selection table).render)
  | identifier _ | string _ | long _ | double _ | renamed .. => none

/-- No node is refused where there is no SELECT and every operator is one of plans. -/
theorem forall_refusal?_eq_none {ns : List Ast} :
    (∀ n ∈ ns, n.refusal? = none) ↔
      (∀ projection selection table, select projection selection table ∉ ns) ∧
        ∀ left op right, binary left op right ∈ ns → op ∈ Operator.texts := by
  refine ⟨fun h => ⟨fun projection selection table hn => ?_, fun left op right hn => ?_⟩, ?_⟩
  · cases h _ hn
  · by_contra hop
    have hnone := h _ hn
    rw [refusal?, if_neg hop] at hnone
    cases hnone
  · intro h n hn
    obtain ⟨hselect, hbinary⟩ := h
    cases n with
    | identifier | string | long | double | renamed => rfl
    | binary left op right => rw [refusal?, if_pos (hbinary left op right hn)]
    | select projection selection table => exact absurd hn (hselect projection selection table)

theorem findSome?_nodes_of_refusal {e : Ast} {err : Error} (h : e.refusal? = some err) :
    e.nodes.findSome? refusal? = some err := by
  obtain ⟨inside, hinside⟩ := e.exists_nodes_eq
  rw [hinside, List.findSome?_cons, h]

theorem findSome?_nodes_binary (left : Ast) {op : String} (right : Ast)
    (h : op ∈ Operator.texts) :
    (binary left op right).nodes.findSome? refusal? =
      (left.nodes.findSome? refusal?).or (right.nodes.findSome? refusal?) := by
  rw [nodes, List.findSome?_cons, refusal?, if_pos h, List.findSome?_append]

/-- A tree lowers, or is refused for the first of its nodes that is. -/
theorem lower_cases (e : Ast) :
    (e.nodes.findSome? refusal? = none ∧ ∃ x, e.lower = .ok x) ∨
      ∃ err, e.nodes.findSome? refusal? = some err ∧ e.lower = .error err := by
  fun_induction Ast.lower e with
  | case1 | case2 | case3 | case4 => exact Or.inl ⟨by simp [nodes, refusal?], _, rfl⟩
  | case5 left symbol right hop =>
      have hrefused : (binary left symbol right).refusal? = some (.unsupportedOperator symbol) := by
        rw [refusal?, if_neg (Operator.ofSymbol?_eq_none.mp hop)]
      exact Or.inr ⟨_, findSome?_nodes_of_refusal hrefused, rfl⟩
  -- The nodes of the left operand are listed first, and it is lowered first.
  | case6 left symbol right op hop err hl ihl =>
      rw [findSome?_nodes_binary left right (Operator.mem_texts_of_ofSymbol? hop)]
      rw [hl] at ihl
      rcases ihl with ⟨-, x, hx⟩ | ⟨err', hfirst, herr⟩
      · cases hx
      · rw [hfirst, Option.some_or]
        exact Or.inr ⟨err', rfl, herr⟩
  | case7 left symbol right op hop lowered hl ihl ihr =>
      rw [findSome?_nodes_binary left right (Operator.mem_texts_of_ofSymbol? hop)]
      rw [hl] at ihl
      rcases ihl with ⟨hleft, -⟩ | ⟨err, -, herr⟩
      · rw [hleft, Option.none_or]
        rcases ihr with ⟨hright, x, hx⟩ | ⟨err, hright, hx⟩
        · exact Or.inl ⟨hright, _, by rw [hx]; rfl⟩
        · exact Or.inr ⟨err, hright, by rw [hx]; rfl⟩
      · cases herr
  | case8 expr name ih =>
      rw [nodes, List.findSome?_cons, refusal?]
      rcases ih with ⟨hexpr, x, hx⟩ | ⟨err, hexpr, hx⟩
      · exact Or.inl ⟨hexpr, _, by rw [hx]; rfl⟩
      · exact Or.inr ⟨err, hexpr, by rw [hx]; rfl⟩
  | case9 projection selection table =>
      exact Or.inr ⟨_, findSome?_nodes_of_refusal rfl, rfl⟩

/-- A tree lowers where none of its nodes is refused. -/
theorem exists_lower {e : Ast} : (∃ x, e.lower = .ok x) ↔ ∀ n ∈ e.nodes, n.refusal? = none := by
  rw [← List.findSome?_eq_none_iff]
  rcases lower_cases e with ⟨h, x, hx⟩ | ⟨err, h, hx⟩
  · simp [h, hx]
  · simp [h, hx]

theorem lower_eq_error {e : Ast} {err : Error} :
    e.lower = .error err ↔ ∃ before n after, e.nodes = before ++ n :: after ∧
      n.refusal? = some err ∧ ∀ m ∈ before, m.refusal? = none := by
  rw [← List.findSome?_eq_some_iff]
  rcases lower_cases e with ⟨h, x, hx⟩ | ⟨err', h, hx⟩
  · simp [h, hx]
  · simp [h, hx]

/-- **Lowering is undone by writing an expression as a tree.**  The tree of an expression lowers to
it, and a tree that lowers is that of its expression.  A tree lowers exactly when there is no SELECT
in it and all its operators are those of plans; the expression then references the names in the tree.
Otherwise the complaint is about the first node that has no counterpart. -/
theorem lower_raises :
    (∀ x : Expr, x.raise.lower = .ok x) ∧
    (∀ (e : Ast) (x : Expr), e.lower = .ok x →
      x.raise = e ∧ ∀ name, name ∈ x.references ↔ identifier name ∈ e.nodes) ∧
    (∀ e : Ast, (∃ x, e.lower = .ok x) ↔
      (∀ projection selection table, select projection selection table ∉ e.nodes) ∧
        ∀ left op right, binary left op right ∈ e.nodes → op ∈ Operator.texts) ∧
    ∀ (e : Ast) (err : Error), e.lower = .error err ↔
      ∃ before n after, e.nodes = before ++ n :: after ∧ n.refusal? = some err ∧
        ∀ m ∈ before, m.refusal? = none := by
  refine ⟨lower_raise, fun e x h => ?_, fun e => ?_, fun e err => lower_eq_error⟩
  · obtain rfl := raise_of_lower h
    refine ⟨rfl, fun name => ?_⟩
    rw [Expr.mem_references, Expr.identifier_mem_nodes]
  · rw [exists_lower, forall_refusal?_eq_none]

/-- The sum is refused before the remainder and the SELECT in it. -/
example :
    (binary (binary (identifier "a") "%" (identifier "b")) "+" (select [] none "t")).lower =
      .error (.unsupportedOperator "+") := by
  decide

end Ast

end SelectPlanner
