/-
A machine that goes through a statement token by token.

All that has to be known of the tokens before is what is due next and how many SELECT lists still
wait for their FROM.  Nothing need be known of how what was read belongs together, so a number does
where a parser has a stack.

The machine is stuck at a token exactly when no statement goes on with it.  That it accepts no less
than the grammar is `accepts_of_statement`, and that no state is a dead end is `accepting_closing`:
from every state there are tokens that complete a statement.  What it refuses for certain is
collected in `not_accepting_of_malformed`.
-/
import Mathlib
import SelectPlanner.Proofs.Grammar

namespace SelectPlanner

/-! ### Tokens -/

namespace Token

variable {t : Token}

/-- Whether a token is an expression by itself: a number is, if it can be read. -/
def isLeaf (t : Token) : Bool :=
  match t.kind with
  | .identifier | .string => true
  | .long => (Numeral.long? t.text.toList).isSome
  | .double => (Double.ofText? t.text.toList).isSome
  | .keyword | .operator | .punctuation => false

/-- A token that binds is an operator, or announces a new name. -/
theorem isInfix_or_asWord (hpos : 0 < t.precedence) : t.IsInfix ∨ t = asWord := by
  obtain ⟨kind, text⟩ := t
  unfold precedence at hpos
  cases kind with
  | operator => exact Or.inl (Or.inl rfl)
  | keyword =>
      dsimp only at hpos
      split at hpos
      · exact Or.inr rfl
      · exact Or.inl (Or.inr ⟨rfl, Or.inr rfl⟩)
      · exact Or.inl (Or.inr ⟨rfl, Or.inl rfl⟩)
      · exact absurd hpos (Nat.lt_irrefl 0)
  | identifier | punctuation | string | long | double => exact absurd hpos (Nat.lt_irrefl 0)

theorem ne_asWord_of_isInfix (h : t.IsInfix) : t ≠ asWord := by
  rintro rfl
  unfold IsInfix at h
  exact absurd h (by decide)

end Token

namespace Machine

/-- What is due next, with the number of SELECT lists that wait for their FROM. -/
inductive State where
  /-- An expression. -/
  | operand (depth : Nat)
  /-- What goes on behind an expression. -/
  | value (depth : Nat)
  /-- The same, or a condition, behind a table. -/
  | source (depth : Nat)
  /-- A new name. -/
  | name (depth : Nat)
  /-- A table. -/
  | table (depth : Nat)
  /-- Nothing. -/
  | closed

/-- Where a token leads behind an expression. -/
def onward (depth : Nat) (t : Token) : Option State :=
  if t = Token.asWord then some (.name depth)
  else if 0 < t.precedence then some (.operand depth)
  else
    match depth with
    | 0 => if t.isPunctuation ";" then some .closed else none
    | depth + 1 =>
      if t.isPunctuation "," then some (.operand (depth + 1))
      else if t.isKeyword "FROM" then some (.table depth)
      else none

theorem ne_asWord_of_zero {t : Token} (h : t.precedence = 0) : t ≠ Token.asWord := by
  rintro rfl
  cases h

theorem onward_zero {t : Token} (h : t.precedence = 0) :
    onward 0 t = if t.isPunctuation ";" then some .closed else none := by
  unfold onward
  rw [if_neg (ne_asWord_of_zero h), if_neg (by omega)]

theorem onward_succ {t : Token} (h : t.precedence = 0) (depth : Nat) :
    onward (depth + 1) t =
      if t.isPunctuation "," then some (.operand (depth + 1))
      else if t.isKeyword "FROM" then some (.table depth)
      else none := by
  unfold onward
  rw [if_neg (ne_asWord_of_zero h), if_neg (by omega)]

namespace State

/-- Where a token leads. -/
def step (t : Token) : State → Option State
  | operand depth =>
    if t.isLeaf then some (value depth)
    else if t = ⟨.keyword, "SELECT"⟩ then some (operand (depth + 1))
    else none
  | value depth => onward depth t
  | source depth => if t.isKeyword "WHERE" then some (operand depth) else onward depth t
  | name depth => if t.kind = .identifier then some (value depth) else none
  | table depth => if t.kind = .identifier then some (source depth) else none
  | closed => none

theorem step_leaf {t : Token} (depth : Nat) (h : t.isLeaf = true) :
    (operand depth).step t = some (value depth) := if_pos h

theorem step_operand_eq_none {t : Token} (depth : Nat) (h : t.isLeaf = false)
    (hselect : t ≠ ⟨.keyword, "SELECT"⟩) : (operand depth).step t = none := by
  rw [step, if_neg (by simp [h]), if_neg hselect]

/-- Where tokens lead, one after the other. -/
def run : List Token → State → Option State
  | [], s => some s
  | t :: ts, s => (s.step t).bind (run ts)

/-- Whether a statement may end here. -/
def Accepting : State → Prop
  | value 0 | source 0 | closed => True
  | _ => False

variable {s s' : State} {t : Token} {ts us : List Token} {d : Nat}

theorem run_cons (h : s.step t = some s') : s.run (t :: ts) = s'.run ts := by
  rw [run, h, Option.bind_some]

theorem run_append (h : s.run ts = some s') : s.run (ts ++ us) = s'.run us := by
  induction ts generalizing s with
  | nil =>
      cases h
      rfl
  | cons t ts ih =>
      obtain ⟨mid, hstep, hrun⟩ := Option.bind_eq_some_iff.mp h
      rw [List.cons_append, run_cons hstep, ih hrun]

/-- Every token of a run is a step of it. -/
theorem exists_step_of_run (h : s.run (ts ++ t :: us) = some s') :
    ∃ mid next : State, s.run ts = some mid ∧ mid.step t = some next ∧ next.run us = some s' := by
  induction ts generalizing s with
  | nil =>
      obtain ⟨next, hstep, hrun⟩ := Option.bind_eq_some_iff.mp h
      exact ⟨s, next, rfl, hstep, hrun⟩
  | cons u ts ih =>
      obtain ⟨first, hfirst, hrun⟩ := Option.bind_eq_some_iff.mp h
      obtain ⟨mid, next, hmid, hstep, hus⟩ := ih hrun
      exact ⟨mid, next, by rw [run_cons hfirst, hmid], hstep, hus⟩

/-- A symbol leads on behind an expression only. -/
theorem onward_of_step (h : s.step t = some s')
    (hkind : t.kind = .operator ∨ t.kind = .punctuation) : ∃ d, onward d t = some s' := by
  obtain ⟨kind, text⟩ := t
  cases s with
  | value d => exact ⟨d, h⟩
  | source d =>
      rcases hkind with rfl | rfl
      · exact ⟨d, h⟩
      · exact ⟨d, h⟩
  | operand | name | table | closed =>
      rcases hkind with rfl | rfl
      · cases h
      · cases h

/-- The machine takes no operator that does not bind. -/
theorem pos_of_step (h : s.step t = some s') (hkind : t.kind = .operator) : 0 < t.precedence := by
  obtain ⟨d, h⟩ := onward_of_step h (Or.inl hkind)
  obtain ⟨kind, text⟩ := t
  obtain rfl : kind = .operator := hkind
  by_contra hpos
  have hzero := Nat.eq_zero_of_not_pos hpos
  cases d with
  | zero =>
      rw [onward_zero hzero] at h
      cases h
  | succ d =>
      rw [onward_succ hzero] at h
      cases h

theorem pos_of_run (h : s.run ts = some s') : ∀ t ∈ ts, t.kind = .operator → 0 < t.precedence := by
  induction ts generalizing s with
  | nil => exact nofun
  | cons t ts ih =>
      obtain ⟨mid, hstep, hrun⟩ := Option.bind_eq_some_iff.mp h
      exact List.forall_mem_cons.mpr ⟨pos_of_step hstep, ih hrun⟩

/-! ### No state is a dead end -/

/-- A table for each SELECT list that waits. -/
def sources : Nat → List Token
  | 0 => []
  | depth + 1 => ⟨.keyword, "FROM"⟩ :: ⟨.identifier, "t"⟩ :: sources depth

/-- What completes a statement. -/
def closing : State → List Token
  | operand depth | name depth | table depth => ⟨.identifier, "t"⟩ :: sources depth
  | value depth | source depth => sources depth
  | closed => []

theorem accepting_sources (d : Nat) :
    (∃ s, (value d).run (sources d) = some s ∧ s.Accepting) ∧
      ∃ s, (source d).run (sources d) = some s ∧ s.Accepting := by
  induction d with
  | zero => exact ⟨⟨_, rfl, trivial⟩, ⟨_, rfl, trivial⟩⟩
  | succ d ih =>
      obtain ⟨-, s, hrun, hs⟩ := ih
      exact ⟨⟨s, hrun, hs⟩, ⟨s, hrun, hs⟩⟩

theorem accepting_closing (s : State) : ∃ s', s.run s.closing = some s' ∧ s'.Accepting := by
  cases s with
  | operand d | name d => exact (accepting_sources d).1
  | table d => exact (accepting_sources d).2
  | value d => exact (accepting_sources d).1
  | source d => exact (accepting_sources d).2
  | closed => exact ⟨.closed, rfl, trivial⟩

/-! ### Every statement is accepted -/

/-- An expression ends here. -/
def Behind (d : Nat) (s : State) : Prop := s = value d ∨ s = source d

theorem Behind.step_eq (hs : s.Behind d) (h : t.isKeyword "WHERE" = false) :
    s.step t = onward d t := by
  rcases hs with rfl | rfl
  · rfl
  · simp only [step, h, Bool.false_eq_true, if_false]

theorem Behind.ofInfix {op : String} (hs : s.Behind d) (known : op ∈ Ast.infixes) :
    s.step (Token.ofInfix op) = some (operand d) := by
  have hpos := Ast.precedence_ofInfix_pos_iff.mpr known
  have hwhere : (Token.ofInfix op).isKeyword "WHERE" = false := by
    have table : ∀ op ∈ Ast.infixes, (Token.ofInfix op).isKeyword "WHERE" = false := by decide
    exact table op known
  rw [hs.step_eq hwhere]
  unfold onward
  rw [if_neg (Token.ne_asWord_of_isInfix Ast.isInfix_ofInfix), if_pos hpos]

theorem isLeaf_of_leaf (h : Grammar.Leaf t) (ht : t.Lexical) : t.isLeaf = true := by
  cases h with
  | identifier | string => rfl
  | long digits small =>
      obtain ⟨value, hvalue⟩ := (Numeral.exists_long?_iff digits).mpr (by omega)
      exact Option.isSome_iff_exists.mpr ⟨value, hvalue⟩
  | double text => exact Option.isSome_iff_exists.mpr (Double.exists_ofText? (ht.double rfl))

/-- A part of a statement leads from where it is due to behind it. -/
theorem run_of_derives {symbol : Grammar.Symbol} (h : Grammar.Derives symbol ts)
    (hts : ∀ t ∈ ts, t.Lexical) (hd : symbol = .items → 0 < d) :
    ∃ s, (operand d).run ts = some s ∧ s.Behind d := by
  induction h generalizing d with
  | @leaf t h =>
      have hleaf := step_leaf d (isLeaf_of_leaf h (hts t List.mem_cons_self))
      exact ⟨value d, run_cons hleaf, Or.inl rfl⟩
  | @select ts table h ih =>
      simp only [List.forall_mem_append, List.forall_mem_cons] at hts
      obtain ⟨s, hrun, hs⟩ := ih hts.2.1 (fun _ => Nat.succ_pos d)
      refine ⟨source d, ?_, Or.inr rfl⟩
      show (operand (d + 1)).run (ts ++ _) = _
      rw [run_append hrun, run_cons (hs.step_eq rfl)]
      rfl
  | @selectWhere ts cs table h hc ih ihc =>
      simp only [List.forall_mem_append, List.forall_mem_cons] at hts
      obtain ⟨-, hitems, -, -, -, hcondition⟩ := hts
      obtain ⟨s, hrun, hs⟩ := ih hitems (fun _ => Nat.succ_pos d)
      obtain ⟨s', hrun', hs'⟩ := ihc hcondition (d := d) nofun
      refine ⟨s', ?_, hs'⟩
      show (operand (d + 1)).run (ts ++ _) = _
      rw [run_append hrun, run_cons (hs.step_eq rfl)]
      exact hrun'
  | single h ih => exact ih hts nofun
  | @joined ts us op h known hr ih ihr =>
      simp only [List.forall_mem_append, List.forall_mem_cons] at hts
      obtain ⟨s, hrun, hs⟩ := ih hts.1 (d := d) nofun
      obtain ⟨s', hrun', hs'⟩ := ihr hts.2.2 (d := d) nofun
      exact ⟨s', by rw [run_append hrun, run_cons (hs.ofInfix known), hrun'], hs'⟩
  | @renamed ts name h ih =>
      obtain ⟨s, hrun, hs⟩ := ih (List.forall_mem_append.mp hts).1 (d := d) nofun
      refine ⟨value d, ?_, Or.inl rfl⟩
      rw [run_append hrun, run_cons (hs.step_eq rfl)]
      rfl
  | last h ih => exact ih hts nofun
  | @more ts us h hs ih ihs =>
      simp only [List.forall_mem_append, List.forall_mem_cons] at hts
      obtain ⟨s, hrun, hbehind⟩ := ih hts.1 (d := d) nofun
      obtain ⟨s', hrun', hbehind'⟩ := ihs hts.2.2 (d := d) hd
      refine ⟨s', ?_, hbehind'⟩
      obtain ⟨depth, rfl⟩ := Nat.exists_eq_succ_of_ne_zero (Nat.pos_iff_ne_zero.mp (hd rfl))
      rw [run_append hrun, run_cons (hbehind.step_eq rfl)]
      exact hrun'

/-- The machine accepts every statement. -/
theorem accepts_of_statement (h : Grammar.Statement ts) (hts : ∀ t ∈ ts, t.Lexical) :
    ∃ s, (operand 0).run ts = some s ∧ s.Accepting := by
  cases h with
  | bare h =>
      obtain ⟨s, hrun, rfl | rfl⟩ := run_of_derives h hts (d := 0) nofun
      · exact ⟨_, hrun, trivial⟩
      · exact ⟨_, hrun, trivial⟩
  | @closed ts h =>
      obtain ⟨s, hrun, hs⟩ := run_of_derives h (List.forall_mem_append.mp hts).1 (d := 0) nofun
      refine ⟨.closed, ?_, trivial⟩
      rw [run_append hrun, run_cons (hs.step_eq rfl)]
      rfl

/-! ### Nothing malformed is accepted -/

theorem step_foreign (h : t ∈ Grammar.foreign) : s.step t = none := by
  have symbols : ∀ t ∈ Grammar.foreign, t.kind = .operator ∨ t.kind = .punctuation := by decide
  by_contra hstep
  obtain ⟨s', hstep⟩ := Option.ne_none_iff_exists'.mp hstep
  obtain ⟨d, hstep⟩ := onward_of_step hstep (symbols t h)
  simp only [Grammar.foreign, List.mem_cons, List.not_mem_nil, or_false] at h
  rcases h with rfl | rfl | rfl <;> cases d <;> cases hstep

theorem operand_of_comma (h : s.step ⟨.punctuation, ","⟩ = some s') : ∃ d, s' = operand d := by
  obtain ⟨d, h⟩ := onward_of_step h (Or.inr rfl)
  cases d with
  | zero => cases h
  | succ d => exact ⟨d + 1, (Option.some.inj h).symm⟩

theorem operand_of_select (h : s.step ⟨.keyword, "SELECT"⟩ = some s') : ∃ d, s' = operand d := by
  cases s with
  | operand d => exact ⟨d + 1, (Option.some.inj h).symm⟩
  | value d => cases d <;> cases h
  | source d => cases d <;> cases h
  | name | table | closed => cases h

theorem closed_of_semicolon (h : s.step ⟨.punctuation, ";"⟩ = some s') : s' = closed := by
  obtain ⟨d, h⟩ := onward_of_step h (Or.inr rfl)
  cases d with
  | zero => exact (Option.some.inj h).symm
  | succ d => cases h

theorem not_accepting_of_noItem (hrest : Grammar.NoItem ts) (h : (operand d).run ts = some s) :
    ¬ s.Accepting := by
  rcases hrest with rfl | ⟨after, rfl | rfl⟩
  · cases h
    exact id
  · cases h
  · cases h

/-- The machine accepts nothing that is malformed. -/
theorem not_accepting_of_malformed (hts : Grammar.Malformed ts) (h : s.run ts = some s') :
    ¬ s'.Accepting := by
  cases hts with
  | foreign ht hforeign =>
      obtain ⟨front, back, rfl⟩ := List.append_of_mem ht
      obtain ⟨mid, next, -, hstep, -⟩ := exists_step_of_run h
      rw [step_foreign hforeign] at hstep
      cases hstep
  | trailingComma front hrest =>
      obtain ⟨mid, next, -, hstep, hrun⟩ := exists_step_of_run h
      obtain ⟨d, rfl⟩ := operand_of_comma hstep
      exact not_accepting_of_noItem hrest hrun
  | emptyList front hrest =>
      obtain ⟨mid, next, -, hstep, hrun⟩ := exists_step_of_run h
      obtain ⟨d, rfl⟩ := operand_of_select hstep
      exact not_accepting_of_noItem hrest hrun
  | semicolons front middle back =>
      obtain ⟨mid, next, -, hstep, hrun⟩ := exists_step_of_run h
      obtain rfl := closed_of_semicolon hstep
      cases middle <;> cases hrun

end State

end Machine

end SelectPlanner
