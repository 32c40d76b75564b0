/-
An extension is asked for only where there is one.

Two things are written apart: the table of precedences, by which the loop decides whether an
expression goes on, and the extension, which looks at its first token for itself.  The extension
takes more tokens than the table knows, any operator at all, and it has complaints about those that
it does not take and about the end of the input.

No expression ever leads to these complaints.  The step is `Proper.makes`: whatever calls an
extension has looked at the next token, and a token that binds is one that the extension takes.
`Proper.of_involves` carries it through operands, lists, statements and conditions.  With it goes
what is known of the trees: every operator in them binds, because the extension that put it there
was asked for at a token that does.
-/
import Mathlib
import SelectPlanner.Proofs.Calls
import SelectPlanner.Proofs.TokenMachine

namespace SelectPlanner

open Token (nextPrecedence)

/-! ### Operators in trees -/

namespace Ast

/-- Every operator in the tree binds. -/
def OperatorsBind (e : Ast) : Prop :=
  ∀ left op right, binary left op right ∈ e.nodes → 0 < (Token.ofInfix op).precedence

theorem operatorsBind_of_leaf {e : Ast} (h : e.Leaf) : e.OperatorsBind := by
  intro left op right hmem
  cases e with
  | identifier | string | long | double =>
      rw [nodes, List.mem_singleton] at hmem
      cases hmem
  | binary | renamed | select => exact h.elim

theorem OperatorsBind.binary {left right : Ast} {op : String} (hl : left.OperatorsBind)
    (hop : 0 < (Token.ofInfix op).precedence) (hr : right.OperatorsBind) :
    (Ast.binary left op right).OperatorsBind := by
  intro left' op' right' hmem
  rw [nodes, List.mem_cons, List.mem_append] at hmem
  rcases hmem with heq | hmem | hmem
  · cases heq
    exact hop
  · exact hl left' op' right' hmem
  · exact hr left' op' right' hmem

theorem OperatorsBind.renamed {expr : Ast} (h : expr.OperatorsBind) (name : String) :
    (Ast.renamed expr name).OperatorsBind := by
  intro left op right hmem
  rw [nodes, List.mem_cons] at hmem
  rcases hmem with heq | hmem
  · cases heq
  · exact h left op right hmem

theorem OperatorsBind.select {projection : List Ast} {condition : Option Ast}
    (hitems : ∀ item ∈ projection, item.OperatorsBind)
    (hcondition : ∀ c ∈ condition, c.OperatorsBind) (table : String) :
    (Ast.select projection condition table).OperatorsBind := by
  intro left op right hmem
  rcases mem_nodes_select.mp hmem with heq | hmem | ⟨c, hc, hmem⟩
  · cases heq
  · obtain ⟨item, hitem, hmem⟩ := mem_nodesOf.mp hmem
    exact hitems item hitem left op right hmem
  · exact hcondition c hc left op right hmem

end Ast

/-! ### What an extension refuses -/

/-- An extension can start with the token. -/
def Token.Extends (t : Token) : Prop := t.IsInfix ∨ t = asWord

/-- The complaints of an extension about its first token, and about there being none. -/
def Error.RefusesExtension : Error → Prop
  | unexpectedEnd expectation => ∃ left : Ast, expectation = "expected operator after " ++ left.render
  | unexpectedToken _ context => ∃ left : Ast, context = "after " ++ left.render
  | _ => False

namespace Error

/-- An operator without a right side is another complaint. -/
theorem not_refusesExtension_right (op : String) :
    ¬ (unexpectedEnd ("expected expression after '" ++ op ++ "'")).RefusesExtension := by
  rintro ⟨left, heq⟩
  have hlist := congrArg String.toList heq
  simp [String.toList_append] at hlist

theorem not_refusesExtension_condition :
    ¬ (unexpectedEnd "expected predicate after WHERE").RefusesExtension := by
  rintro ⟨left, heq⟩
  have hlist := congrArg String.toList heq
  simp [String.toList_append] at hlist

theorem not_refusesExtension_operand (token : String) :
    ¬ (unexpectedToken token "at start of expression").RefusesExtension := by
  rintro ⟨left, heq⟩
  have hlist := congrArg String.toList heq
  simp [String.toList_append] at hlist

end Error

namespace Parser

/-! ### Clean outcomes -/

section Clean

variable {α β : Type} {Q : α → Prop} {R : β → Prop} {o : Outcome α}

/-- `Q` holds of what was read, and a failure is no complaint of an extension. -/
inductive Clean (Q : α → Prop) : Outcome α → Prop where
  | ok {a : α} {rest : List Token} (h : Q a) : Clean Q ⟨.ok a, rest⟩
  | error {err : Error} {rest : List Token} (h : ¬ err.RefusesExtension) :
      Clean Q ⟨.error err, rest⟩

theorem Clean.mono {Q' : α → Prop} (h : Clean Q o) (hQ : ∀ a, Q a → Q' a) : Clean Q' o := by
  cases h with
  | ok h => exact .ok (hQ _ h)
  | error h => exact .error h

theorem Clean.map (h : Clean Q o) {f : α → β} (hf : ∀ a, Q a → R (f a)) : Clean R (o.map f) := by
  cases h with
  | ok h => exact .ok (hf _ h)
  | error h => exact .error h

theorem Clean.andThen (h : Clean Q o) {f : α → List Token → Outcome β}
    (hf : ∀ a rest, o = ⟨.ok a, rest⟩ → Q a → Clean R (f a rest)) : Clean R (o.andThen f) := by
  cases h with
  | ok h => exact hf _ _ rfl h
  | error h => exact .error h

theorem Clean.of_eq_ok {a : α} {rest : List Token} (h : Clean Q o) (ho : o = ⟨.ok a, rest⟩) :
    Q a := by
  cases h with
  | ok h =>
      cases ho
      exact h
  | error h => cases ho

theorem Clean.of_result_eq_error {err : Error} (h : Clean Q o) (ho : o.result = .error err) :
    ¬ err.RefusesExtension := by
  cases h with
  | ok h => cases ho
  | error h =>
      cases ho
      exact h

end Clean

variable {p q : Nat} {t : Token} {ts rest : List Token} {left longer : Ast}

theorem clean_name (place : String) (ts : List Token) :
    Clean (fun _ => True) (parseName place ts) := by
  cases ts with
  | nil =>
      rw [parseName_nil]
      exact .error id
  | cons t ts =>
      rw [parseName_cons]
      by_cases hkind : t.kind = .identifier
      · rw [if_pos hkind]
        exact .ok trivial
      · rw [if_neg hkind]
        exact .error id

theorem clean_source (ts : List Token) : Clean (fun _ => True) (parseSource ts) := by
  rw [parseSource_eq]
  cases Token.afterKeyword? "FROM" ts with
  | none => exact .error id
  | some rest => exact clean_name "as table name" rest

/-! ### Calls that are made rightly -/

namespace Call

/-- If the call is for an extension, then it is in front of a token that extends an expression, with
the precedence of that token, which binds. -/
def Guarded : Call → Prop
  | extension _ q ts => ∃ t rest, ts = t :: rest ∧ t.Extends ∧ q = t.precedence ∧ 0 < q
  | _ => True

/-- The trees that a call starts from. -/
def given : Call → List Ast
  | extensions left _ _ | extension left _ _ => [left]
  | expression .. | operand _ | selectBody _ | items _ => []

/-- The trees in what a call reads. -/
def trees : (c : Call) → c.Value → List Ast
  | expression .. | operand _ => fun found => found.toList
  | extensions .. | extension .. => fun e => [e]
  | selectBody _ => fun s => [s.toAst]
  | items _ => fun es => es

/-- A call that may be made. -/
structure Proper (c : Call) : Prop where
  guarded : c.Guarded
  given : ∀ e ∈ c.given, e.OperatorsBind

/-- What comes of the call is clean, and every operator in the trees that it reads binds. -/
def ReadsWell (c : Call) : Prop :=
  Clean (fun v => ∀ e ∈ c.trees v, e.OperatorsBind) c.outcome

variable {c d : Call}

/-- Only the loop calls for extensions, and whatever binds more tightly than something extends an
expression. -/
theorem Makes.guarded (h : c.Makes d) : d.Guarded := by
  cases h with
  | @turn left p ts hp =>
      cases ts with
      | nil => exact absurd hp (Nat.not_lt_zero p)
      | cons t rest =>
          have hpos : 0 < t.precedence := Nat.zero_lt_of_lt hp
          exact ⟨t, rest, rfl, Token.isInfix_or_asWord hpos, rfl, hpos⟩
  | operand | loop | select | again | right | items | condition | item | more => trivial

/-- A call that may be made makes only such calls, if what it reads on the way is read well. -/
theorem Proper.makes (hc : c.Proper) (h : c.Makes d)
    (inside : ∀ d', c.Makes d' → d'.Proper → d'.ReadsWell) : d.Proper := by
  refine ⟨h.guarded, ?_⟩
  cases h with
  | operand | select | right | items | condition | item | more => exact nofun
  | @loop p e ts rest hread =>
      exact (inside _ (.operand p ts) ⟨trivial, nofun⟩).of_eq_ok hread
  | turn => exact hc.given
  | @again left longer p ts rest hp hturn =>
      have hcall : Makes (extensions left p ts) _ := .turn left hp
      exact (inside _ hcall ⟨hcall.guarded, hc.given⟩).of_eq_ok hturn

/-- An account that is right about the guarded calls follows the bodies there. -/
theorem follows_of_guarded {account : (c : Call) → Outcome c.Value}
    (h : ∀ c, c.Guarded → account c = c.outcome) (hc : c.Guarded) :
    account c = c.body account := by
  rw [h c hc]
  exact (body_congr fun d hd => h d hd.guarded).symm

/-! ### What comes of them -/

theorem readsWell_expression (calls : ∀ d, (expression p ts).Makes d → d.ReadsWell) :
    (expression p ts).ReadsWell := by
  show Clean _ (parse p ts)
  rw [parse_eq]
  refine (calls _ (.operand p ts)).andThen fun found rest hread _ => ?_
  cases found with
  | none => exact .ok nofun
  | some e => exact (calls _ (.loop p hread)).map fun longer h => h

/-- An operand that is no SELECT is a leaf, if it is one at all. -/
theorem clean_operand (h : t ≠ ⟨.keyword, "SELECT"⟩) (ts : List Token) :
    Clean (fun found => ∀ e ∈ found.toList, e.OperatorsBind) (parseOperand (t :: ts)) := by
  have leaf : ∀ e : Ast, e.Leaf → ∀ e' ∈ (some e).toList, e'.OperatorsBind := by
    intro e hleaf e' he'
    obtain rfl : e' = e := by simpa using he'
    exact Ast.operatorsBind_of_leaf hleaf
  obtain ⟨kind, text⟩ := t
  rw [parseOperand_cons]
  cases kind with
  | identifier => exact .ok (leaf _ trivial)
  | string => exact .ok (leaf _ trivial)
  | long =>
      dsimp only
      cases Numeral.long? text.toList with
      | none => exact .error id
      | some n => exact .ok (leaf _ trivial)
  | double =>
      dsimp only
      cases Double.ofText? text.toList with
      | none => exact .error id
      | some d => exact .ok (leaf _ trivial)
  | keyword =>
      have hselect : text ≠ "SELECT" := by
        rintro rfl
        exact h rfl
      simp only [if_neg hselect]
      exact .error (Error.not_refusesExtension_operand _)
  | operator | punctuation => exact .error (Error.not_refusesExtension_operand _)

theorem readsWell_operand (calls : ∀ d, (operand ts).Makes d → d.ReadsWell) :
    (operand ts).ReadsWell := by
  cases ts with
  | nil => exact .ok nofun
  | cons t ts =>
      by_cases hselect : t = ⟨.keyword, "SELECT"⟩
      · subst hselect
        rw [ReadsWell, ← body_outcome]
        exact (calls _ (.select ts)).map fun s h => h
      · exact clean_operand hselect ts

theorem readsWell_extensions (given : ∀ e ∈ (extensions left p ts).given, e.OperatorsBind)
    (calls : ∀ d, (extensions left p ts).Makes d → d.ReadsWell) :
    (extensions left p ts).ReadsWell := by
  show Clean _ (parseExtensions left p ts)
  rw [parseExtensions_eq]
  by_cases hp : p < nextPrecedence ts
  · rw [if_pos hp]
    refine (calls _ (.turn left hp)).andThen fun longer rest hturn _ => ?_
    exact calls _ (.again hp hturn)
  · rw [if_neg hp]
    exact .ok given

/-- In front of a token that it can start with, an extension has nothing to complain about.  What it
puts into the tree is the operator of that token. -/
theorem clean_extension (hext : t.Extends) (left : Ast)
    (hright : t.IsInfix → (expression q ts).ReadsWell) :
    Clean (fun longer => 0 < t.precedence → left.OperatorsBind → longer.OperatorsBind)
      (parseExtension left q (t :: ts)) := by
  rw [parseExtension_cons]
  rcases hext with hjoin | rfl
  · have hread := hright hjoin
    unfold Token.IsInfix at hjoin
    rw [if_pos hjoin]
    refine Clean.andThen hread fun found rest _ hfound => ?_
    cases found with
    | none => exact .error (Error.not_refusesExtension_right t.text)
    | some right =>
        refine .ok fun hpos hleft => ?_
        have hop : 0 < (Token.ofInfix t.text).precedence := by
          rw [Token.ofInfix_text hjoin hpos]
          exact hpos
        exact hleft.binary hop (hfound right (List.mem_singleton_self right))
  · rw [if_neg (by decide), if_pos (by decide)]
    exact (clean_name "after AS" ts).map fun name _ _ hleft => hleft.renamed name

theorem readsWell_extension (hc : (extension left q ts).Proper)
    (calls : ∀ d, (extension left q ts).Makes d → d.ReadsWell) :
    (extension left q ts).ReadsWell := by
  obtain ⟨t, rest, rfl, hext, rfl, hpos⟩ := hc.guarded
  have hleft : left.OperatorsBind := hc.given left (List.mem_singleton_self left)
  have hclean := clean_extension hext left fun hjoin => calls _ (.right left t.precedence hjoin rest)
  refine hclean.mono fun longer hlonger e he => ?_
  obtain rfl := List.mem_singleton.mp he
  exact hlonger hpos hleft

theorem readsWell_selectBody (calls : ∀ d, (selectBody ts).Makes d → d.ReadsWell) :
    (selectBody ts).ReadsWell := by
  show Clean _ (parseSelectBody ts)
  rw [parseSelectBody_eq]
  refine (calls _ (.items ts)).andThen fun projection fromOn hitems hprojection => ?_
  refine (clean_source fromOn).andThen fun table whereOn hsource _ => ?_
  cases hwhere : Token.afterKeyword? "WHERE" whereOn with
  | none =>
      refine .ok fun e he => ?_
      obtain rfl := List.mem_singleton.mp he
      refine .select hprojection (fun c hc => ?_) table
      cases hc
  | some rest =>
      refine (calls _ (.condition hitems hsource hwhere)).andThen fun found rest' _ hfound => ?_
      cases found with
      | none => exact .error Error.not_refusesExtension_condition
      | some condition =>
          refine .ok fun e he => ?_
          obtain rfl := List.mem_singleton.mp he
          refine .select hprojection (fun c hc => ?_) table
          exact hfound c (Option.mem_toList.mpr hc)

theorem readsWell_items (calls : ∀ d, (items ts).Makes d → d.ReadsWell) :
    (items ts).ReadsWell := by
  show Clean _ (parseItems ts)
  rw [parseItems_eq]
  refine (calls _ (.item ts)).andThen fun found rest hitem hfound => ?_
  cases found with
  | none => exact .ok nofun
  | some item =>
      dsimp only
      cases hcomma : Token.afterPunctuation? "," rest with
      | none => exact .ok hfound
      | some others =>
          refine (calls _ (.more hitem hcomma)).map fun es hes => ?_
          exact List.forall_mem_cons.mpr ⟨hfound item (List.mem_singleton_self item), hes⟩

/-- What is read in a call that may be made is read well. -/
theorem Proper.readsWell (hc : c.Proper) : c.ReadsWell := by
  induction c using makes_induction with
  | step c ih =>
      have calls : ∀ d, c.Makes d → d.ReadsWell := by
        intro d hd
        exact ih d hd (hc.makes hd ih)
      cases c with
      | expression p ts => exact readsWell_expression calls
      | operand ts => exact readsWell_operand calls
      | extensions left p ts => exact readsWell_extensions hc.given calls
      | extension left q ts => exact readsWell_extension hc calls
      | selectBody ts => exact readsWell_selectBody calls
      | items ts => exact readsWell_items calls

/-- A call that may be made leads to no others, at any depth. -/
theorem Proper.of_involves (hc : c.Proper) (h : c.Involves d) : d.Proper := by
  induction h with
  | refl => exact hc
  | tail _ hd ih => exact ih.makes hd fun d' _ hd' => hd'.readsWell

theorem proper_expression (p : Nat) (ts : List Token) : (expression p ts).Proper :=
  ⟨trivial, nofun⟩

end Call

open Call (proper_expression)

/-- An extension complains about its first token, or about there being none, if it cannot start
there, and never otherwise. -/
theorem refusesExtension_iff (left : Ast) (q : Nat) (ts : List Token) :
    (∃ err, (parseExtension left q ts).result = .error err ∧ err.RefusesExtension) ↔
      ∀ t rest, ts = t :: rest → ¬ t.Extends := by
  constructor
  · rintro ⟨err, herr, hrefuses⟩ t rest rfl hext
    have hclean := Call.clean_extension hext left fun _ => (proper_expression q rest).readsWell
    exact hclean.of_result_eq_error herr hrefuses
  · intro hnone
    cases ts with
    | nil => exact ⟨_, rfl, left, rfl⟩
    | cons t rest =>
        have hext := hnone t rest rfl
        have hjoin : ¬ t.IsInfix := fun h => hext (Or.inl h)
        have has : ¬ (t.kind = .keyword ∧ t.text = "AS") := by
          rintro ⟨hkind, htext⟩
          obtain ⟨kind, text⟩ := t
          exact hext (Or.inr (by rw [Token.asWord, ← hkind, ← htext]))
        unfold Token.IsInfix at hjoin
        rw [parseExtension_cons, if_neg hjoin, if_neg has]
        exact ⟨_, rfl, left, rfl⟩

/-- **Extensions are asked for only where they exist.**  Whatever reading an expression asks an
extension of, at any depth, starts with a token that extends an expression, and the precedence that
comes with it is that of the token, which binds.  So the extension does not complain about it, and
the operator that it puts into the tree binds.  Reading never fails with such a complaint, and comes
to the same whatever is made of extensions anywhere else.  And every operator in an expression that
was read binds, so none of them is a remainder. -/
theorem parse_guards_extensions (p : Nat) (ts : List Token) :
    (∀ left q us, (Call.expression p ts).Involves (.extension left q us) →
      (∃ t rest, us = t :: rest ∧ t.Extends ∧ q = t.precedence ∧ 0 < q) ∧
      (∀ err, (parseExtension left q us).result = .error err → ¬ err.RefusesExtension) ∧
      left.OperatorsBind ∧
      ∀ longer rest, parseExtension left q us = ⟨.ok longer, rest⟩ → longer.OperatorsBind) ∧
    (∀ err, (parse p ts).result = .error err → ¬ err.RefusesExtension) ∧
    (∀ account : (c : Call) → Outcome c.Value,
      (∀ c, c.Guarded → account c = c.body account) →
        account (.expression p ts) = parse p ts) ∧
    ∀ e rest, parse p ts = ⟨.ok (some e), rest⟩ → ∀ left op right, .binary left op right ∈ e.nodes →
      0 < (Token.ofInfix op).precedence ∧ op ≠ "%" := by
  have hproper := proper_expression p ts
  refine ⟨?_, ?_, ?_, ?_⟩
  · intro left q us hinvolves
    have hcall := hproper.of_involves hinvolves
    refine ⟨hcall.guarded, fun err => hcall.readsWell.of_result_eq_error, ?_, ?_⟩
    · exact hcall.given left (List.mem_singleton_self left)
    · intro longer rest hlonger
      exact hcall.readsWell.of_eq_ok hlonger longer (List.mem_singleton_self longer)
  · intro err
    exact hproper.readsWell.of_result_eq_error
  · intro account hfollows
    exact Call.eq_outcome_of_involves fun d hd => hfollows d (hproper.of_involves hd).guarded
  · intro e rest hread left op right hmem
    have hbinds := hproper.readsWell.of_eq_ok hread e (List.mem_singleton_self e) left op right hmem
    refine ⟨hbinds, ?_⟩
    rintro rfl
    exact absurd hbinds (by decide)

/-- The tokens of `> 1 % 2`. -/
def comparisonTokens : List Token :=
  [⟨.operator, ">"⟩, ⟨.long, "1"⟩, ⟨.operator, "%"⟩, ⟨.long, "2"⟩]

/-- The tokens of `FROM t WHERE b > 1 % 2`. -/
def comparedSource : List Token :=
  ⟨.keyword, "FROM"⟩ :: ⟨.identifier, "t"⟩ :: ⟨.keyword, "WHERE"⟩ :: ⟨.identifier, "b"⟩ ::
    comparisonTokens

/-- The tokens of `SELECT a FROM t WHERE b > 1 % 2`. -/
def comparedTokens : List Token := ⟨.keyword, "SELECT"⟩ :: ⟨.identifier, "a"⟩ :: comparedSource

theorem parseItems_compared :
    parseItems (⟨.identifier, "a"⟩ :: comparedSource) = ⟨.ok [.identifier "a"], comparedSource⟩ := by
  have hitem : parse 0 (⟨.identifier, "a"⟩ :: comparedSource) =
      ⟨.ok (some (.identifier "a")), comparedSource⟩ := by cbv
  rw [parseItems_eq, hitem]
  rfl

theorem involves_comparison : (Call.expression 0 comparedTokens).Involves
    (.extension (.identifier "b") 40 comparisonTokens) := by
  have hoperand : parseOperand (⟨.identifier, "b"⟩ :: comparisonTokens) =
      ⟨.ok (some (.identifier "b")), comparisonTokens⟩ := parseOperand_cons _ _
  have hsource := parseSource_cons "t" (⟨.keyword, "WHERE"⟩ :: ⟨.identifier, "b"⟩ :: comparisonTokens)
  have hnext : nextPrecedence comparisonTokens = 40 := by decide
  rw [← hnext]
  refine .head (.operand 0 _) (.head (.select _) ?_)
  refine .head (.condition parseItems_compared hsource rfl) ?_
  exact .head (.loop 0 hoperand) (.single (.turn _ (by decide)))

open Classical in
/-- A comparison in a condition is extended where it binds.  A remainder could extend it, but does
not bind, so it is left; and it does not matter what is made of the end of the input. -/
theorem parse_guards_extensions_comparison :
    (Call.expression 0 comparedTokens).Involves
        (.extension (.identifier "b") 40 comparisonTokens) ∧
      (∃ t rest, comparisonTokens = t :: rest ∧ t.Extends ∧ 40 = t.precedence ∧ 0 < 40) ∧
      parse 0 comparedTokens = ⟨.ok (some (.select [.identifier "a"]
        (some (.binary (.identifier "b") ">" (.long 1))) "t")), comparisonTokens.drop 2⟩ ∧
      Token.Extends ⟨.operator, "%"⟩ ∧
      ∃ account : (c : Call) → Outcome c.Value,
        (∀ c, c.Guarded → account c = c.body account) ∧
        account (.extension (.identifier "b") 40 []) ≠ parseExtension (.identifier "b") 40 [] ∧
        account (.expression 0 comparedTokens) = parse 0 comparedTokens := by
  obtain ⟨hguards, -, haccount, -⟩ := parse_guards_extensions 0 comparedTokens
  obtain ⟨hguarded, -⟩ := hguards _ _ _ involves_comparison
  have hcondition : parse 0 (⟨.identifier, "b"⟩ :: comparisonTokens) =
      ⟨.ok (some (.binary (.identifier "b") ">" (.long 1))), comparisonTokens.drop 2⟩ := by cbv
  have hoperand := parseOperand_select (parseSelectBody_of_some parseItems_compared hcondition)
  have hparse := parse_of_extensions (p := 0) (parse_of_operand hoperand) (by decide)
  refine ⟨involves_comparison, hguarded, hparse, Or.inl (Or.inl rfl), ?_⟩
  let account : (c : Call) → Outcome c.Value := fun c =>
    if c.Guarded then c.outcome else fail (.execution "never asked for") []
  have hfollows : ∀ c : Call, c.Guarded → account c = c.body account := fun c =>
    Call.follows_of_guarded fun c hc => if_pos hc
  refine ⟨account, hfollows, ?_, haccount account hfollows⟩
  have hend : ¬ (Call.extension (.identifier "b") 40 []).Guarded := by
    rintro ⟨t, rest, heq, -⟩
    cases heq
  simp only [account, if_neg hend]
  simp [fail, parseExtension]

end Parser

end SelectPlanner
