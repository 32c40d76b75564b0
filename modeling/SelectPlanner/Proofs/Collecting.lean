/-
Collecting takes all batches or the first failure, and asks for no more than it takes.

What a plan yields is either batches to the end, or batches and then a failure with anything behind
it.  Collecting runs through the batches in front in either case, which is `pullAll_batches`, and
what it comes to then ends it.

How much was asked for is a number beside the result.  What it counts is said by a source:
something with a state that gives its items one at a time, as long as it is asked.  Collecting from
a source leaves it in the state behind the items that the number counts, so nothing behind them was
ever asked for, and where an item fails there need not be an end at all.
-/
import SelectPlanner.Batch

namespace SelectPlanner.Execution

/-! ### Sources -/

/-- Something that gives items one at a time. -/
structure Source (σ : Type) where
  /-- The next item and what is left behind it, unless there is none. -/
  next : σ → Option (Except Error Batch × σ)

namespace Source

/-- A source gives these items one after the other, and is then in this state. -/
inductive Gives {σ : Type} (s : Source σ) : σ → List (Except Error Batch) → σ → Prop where
  | nil (a : σ) : Gives s a [] a
  | cons {a b c : σ} {item : Except Error Batch} {items : List (Except Error Batch)}
      (first : s.next a = some (item, b)) (rest : Gives s b items c) : Gives s a (item :: items) c

/-- A source is asked until an item fails or none is left: the result, and the state after it. -/
inductive Collects {σ : Type} (s : Source σ) : σ → Except Error (List Batch) → σ → Prop where
  | ended {a : σ} (none_left : s.next a = none) : Collects s a (.ok []) a
  | failed {a b : σ} {e : Error} (first : s.next a = some (.error e, b)) : Collects s a (.error e) b
  | batch {a b c : σ} {batch : Batch} {result : Except Error (List Batch)}
      (first : s.next a = some (.ok batch, b)) (rest : Collects s b result c) :
      Collects s a (result.map (batch :: ·)) c

variable {σ : Type} {s : Source σ} {a b c c' : σ} {items : List (Except Error Batch)}
  {result result' : Except Error (List Batch)}

theorem Gives.unique (h : s.Gives a items c) (h' : s.Gives a items c') : c = c' := by
  induction h with
  | nil a =>
      cases h'
      rfl
  | cons first _ ih =>
      cases h' with
      | cons first' rest' =>
          cases first.symm.trans first'
          exact ih rest'

theorem Collects.unique (h : s.Collects a result c) (h' : s.Collects a result' c') :
    result = result' ∧ c = c' := by
  induction h generalizing result' with
  | ended none_left =>
      cases h' with
      | ended => exact ⟨rfl, rfl⟩
      | failed first' => cases none_left.symm.trans first'
      | batch first' _ => cases none_left.symm.trans first'
  | failed first =>
      cases h' with
      | ended none_left' => cases first.symm.trans none_left'
      | failed first' =>
          cases first.symm.trans first'
          exact ⟨rfl, rfl⟩
      | batch first' _ => cases first.symm.trans first'
  | batch first _ ih =>
      cases h' with
      | ended none_left' => cases first.symm.trans none_left'
      | failed first' => cases first.symm.trans first'
      | batch first' rest' =>
          cases first.symm.trans first'
          obtain ⟨rfl, rfl⟩ := ih rest'
          exact ⟨rfl, rfl⟩

end Source

variable {items later : List (Except Error Batch)} {e : Error}

/-! ### Batches in front -/

/-- Collecting goes on behind batches as it would without them. -/
theorem pullAll_batches (batches : List Batch) (items : List (Except Error Batch)) :
    pullAll (batches.map .ok ++ items) =
      ⟨(pullAll items).result.map (batches ++ ·), (pullAll items).pulled + batches.length⟩ := by
  induction batches with
  | nil =>
      show pullAll items = ⟨(pullAll items).result.map fun more => more, (pullAll items).pulled⟩
      cases pullAll items with
      | mk result pulled => cases result <;> rfl
  | cons batch batches ih =>
      rw [List.map_cons, List.cons_append, pullAll, ih]
      cases (pullAll items).result <;> rfl

theorem pullAll_all (batches : List Batch) :
    pullAll (batches.map .ok) = ⟨.ok batches, batches.length⟩ := by
  have h := pullAll_batches batches []
  rw [List.append_nil] at h
  rw [h, pullAll]
  simp [Except.map]

theorem pullAll_failure (batches : List Batch) (e : Error) (later : List (Except Error Batch)) :
    pullAll (batches.map .ok ++ .error e :: later) = ⟨.error e, batches.length + 1⟩ := by
  rw [pullAll_batches, pullAll, Nat.add_comm]
  rfl

/-- What is yielded is all batches, or there is a first failure. -/
theorem items_cases (items : List (Except Error Batch)) :
    (∃ batches : List Batch, items = batches.map .ok) ∨
      ∃ (batches : List Batch) (e : Error) (later : List (Except Error Batch)),
        items = batches.map .ok ++ .error e :: later := by
  induction items with
  | nil => exact Or.inl ⟨[], rfl⟩
  | cons item items ih =>
      cases item with
      | error e => exact Or.inr ⟨[], e, items, rfl⟩
      | ok batch =>
          rcases ih with ⟨batches, rfl⟩ | ⟨batches, e, later, rfl⟩
          · exact Or.inl ⟨batch :: batches, rfl⟩
          · exact Or.inr ⟨batch :: batches, e, later, rfl⟩

theorem error_not_mem_batches (batches : List Batch) (e : Error) :
    Except.error e ∉ batches.map (Except.ok : Batch → Except Error Batch) := by
  simp

/-! ### Results -/

theorem pullAll_eq_ok {batches : List Batch} {pulled : Nat} :
    pullAll items = ⟨.ok batches, pulled⟩ ↔ items = batches.map .ok ∧ pulled = batches.length := by
  constructor
  · intro h
    rcases items_cases items with ⟨all, rfl⟩ | ⟨front, e, later, rfl⟩
    · rw [pullAll_all] at h
      cases h
      exact ⟨rfl, rfl⟩
    · rw [pullAll_failure] at h
      cases h
  · rintro ⟨rfl, rfl⟩
    exact pullAll_all batches

theorem pullAll_eq_error {pulled : Nat} :
    pullAll items = ⟨.error e, pulled⟩ ↔
      ∃ (batches : List Batch) (later : List (Except Error Batch)),
        items = batches.map .ok ++ .error e :: later ∧ pulled = batches.length + 1 := by
  constructor
  · intro h
    rcases items_cases items with ⟨all, rfl⟩ | ⟨batches, e', later, rfl⟩
    · rw [pullAll_all] at h
      cases h
    · rw [pullAll_failure] at h
      cases h
      exact ⟨batches, later, rfl, rfl⟩
  · rintro ⟨batches, later, rfl, rfl⟩
    exact pullAll_failure batches e later

/-- Nothing behind a failure makes a difference. -/
theorem pullAll_congr (front : List (Except Error Batch)) (e : Error)
    (later later' : List (Except Error Batch)) :
    pullAll (front ++ .error e :: later) = pullAll (front ++ .error e :: later') := by
  rcases items_cases front with ⟨batches, rfl⟩ | ⟨batches, e', more, rfl⟩
  · rw [pullAll_failure, pullAll_failure]
  · rw [List.append_assoc, List.append_assoc, List.cons_append, List.cons_append, pullAll_failure,
      pullAll_failure]

/-- Collecting from a source gives the result, and asks for as many items as are counted. -/
theorem exists_collects {σ : Type} {s : Source σ} {a b : σ} (h : s.Gives a items b)
    (ends : s.next b = none ∨ ∃ e, .error e ∈ items) :
    ∃ c, s.Collects a (pullAll items).result c ∧
      s.Gives a (items.take (pullAll items).pulled) c := by
  induction h with
  | nil a =>
      refine ⟨a, .ended ?_, .nil a⟩
      rcases ends with none_left | ⟨e, he⟩
      · exact none_left
      · cases he
  | @cons a b d item items first rest ih =>
      cases item with
      | error e => exact ⟨b, .failed first, .cons first (.nil b)⟩
      | ok batch =>
          have ends' : s.next d = none ∨ ∃ e, .error e ∈ items := by
            refine ends.imp_right ?_
            rintro ⟨e, he⟩
            rcases List.mem_cons.mp he with he | he
            · cases he
            · exact ⟨e, he⟩
          obtain ⟨c, hcollects, hgives⟩ := ih ends'
          exact ⟨c, .batch first hcollects, .cons first hgives⟩

/-- **Collecting takes all batches or the first failure, and asks for no more than it takes.**  A
plan that does not start is asked for nothing.  The batches are all of them, in order, just when no
item failed.  Otherwise the failure is the first one, the items up to it were asked for, and what
follows makes no difference.  Of a source, which need not end behind a failure, just these items are
asked for. -/
theorem collect_outcome :
    (∀ e, collect (.error e) = ⟨.error e, 0⟩) ∧
    ∀ items : List (Except Error Batch),
      ((∃ batches, (collect (.ok items)).result = .ok batches) ↔ ∀ e, .error e ∉ items) ∧
      (∀ batches pulled, collect (.ok items) = ⟨.ok batches, pulled⟩ ↔
        items = batches.map .ok ∧ pulled = items.length) ∧
      (∀ e pulled, collect (.ok items) = ⟨.error e, pulled⟩ ↔
        ∃ (batches : List Batch) (later : List (Except Error Batch)),
          items = batches.map .ok ++ .error e :: later ∧ pulled = batches.length + 1) ∧
      (∀ front e later later', items = front ++ .error e :: later →
        collect (.ok (front ++ .error e :: later')) = collect (.ok items)) ∧
      ∀ (σ : Type) (s : Source σ) (a b : σ), s.Gives a items b →
        (s.next b = none ∨ ∃ e, .error e ∈ items) → ∀ result c,
          s.Collects a result c ↔ result = (collect (.ok items)).result ∧
            s.Gives a (items.take (collect (.ok items)).pulled) c := by
  refine ⟨fun _ => rfl, fun items => ⟨?_, fun batches pulled => ?_,
    fun e pulled => pullAll_eq_error, ?_, ?_⟩⟩
  · rcases items_cases items with ⟨batches, rfl⟩ | ⟨batches, e, later, rfl⟩
    · exact iff_of_true ⟨batches, congrArg Collected.result (pullAll_all batches)⟩
        (error_not_mem_batches batches)
    · refine iff_of_false ?_ fun none_failed => none_failed e (by simp)
      rintro ⟨all, h⟩
      cases (congrArg Collected.result (pullAll_failure batches e later)).symm.trans h
  · refine pullAll_eq_ok.trans (and_congr_right ?_)
    rintro rfl
    rw [List.length_map]
  · rintro front e later later' rfl
    exact pullAll_congr front e later' later
  · intro σ s a b hgives ends result c
    obtain ⟨c', hcollects, hpulled⟩ := exists_collects hgives ends
    constructor
    · intro h
      obtain ⟨rfl, rfl⟩ := h.unique hcollects
      exact ⟨rfl, hpulled⟩
    · rintro ⟨rfl, h⟩
      exact h.unique hpulled ▸ hcollects

/-- A batch without columns. -/
def blank : Batch := ⟨⟨[]⟩, [], Batch.fault?_eq_none.mp rfl⟩

/-- A source without an end.  Its third item fails. -/
def endless : Source Nat :=
  ⟨fun n => some (if n = 2 then .error (.execution "disk on fire") else .ok blank, n + 1)⟩

theorem collect_outcome_endless :
    endless.Collects 0 (.error (.execution "disk on fire")) 3 := by
  have hgives : endless.Gives 0
      [.ok blank, .ok blank, .error (.execution "disk on fire"), .ok blank] 4 :=
    .cons rfl (.cons rfl (.cons rfl (.cons rfl (.nil 4))))
  have hfails : ∃ e, .error e ∈ ([.ok blank, .ok blank, .error (.execution "disk on fire"),
      .ok blank] : List (Except Error Batch)) := ⟨.execution "disk on fire", by simp⟩
  obtain ⟨-, hcollect⟩ := collect_outcome
  obtain ⟨-, -, -, -, hsource⟩ := hcollect
    [.ok blank, .ok blank, .error (.execution "disk on fire"), .ok blank]
  have hpulled : endless.Gives 0 [.ok blank, .ok blank, .error (.execution "disk on fire")] 3 :=
    .cons rfl (.cons rfl (.cons rfl (.nil 3)))
  exact (hsource Nat endless 0 4 hgives (Or.inr hfails) _ 3).mpr ⟨rfl, hpulled⟩

end SelectPlanner.Execution
