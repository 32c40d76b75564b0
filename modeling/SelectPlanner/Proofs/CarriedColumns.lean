/-
A query carries the columns that it has to, and no others.

Before a condition is put on it a SELECT list may be made wider by columns of its source.  The
condition then resolves as soon as it finds among them all that it mentions and the list does not
put out.  So one choice is the least, and it is the one that planning makes: an interim projection
has those columns behind the list, each once, and where there are none no interim projection is
made.
-/
import SelectPlanner.Proofs.Outcome

namespace SelectPlanner

namespace Plan

variable {p source plan : Plan} {items : List Expr} {q : Expr} {fields : List Field}
  {extra carried : List String}

/-! ### Wider SELECT lists -/

/-- With these columns behind the SELECT list, the condition can be put on it. -/
def Suffices (source : Plan) (items : List Expr) (q : Expr) (extra : List String) : Prop :=
  ∃ wider plan, source.select (items ++ extra.map Expr.column) = .ok wider ∧
    wider.filter q = .ok plan

/-- A condition can be put on a plan that has all its columns. -/
theorem exists_filter :
    (∃ plan, p.filter q = .ok plan) ↔ ∀ name ∈ q.columns, name ∈ p.schema.fieldNames := by
  rw [← Expr.exists_fieldIn]
  constructor
  · intro h
    obtain ⟨plan, hplan⟩ := h
    obtain ⟨field, hfield, -⟩ := map_eq_ok.mp hplan
    exact ⟨field, hfield⟩
  · intro h
    obtain ⟨field, hfield⟩ := h
    exact ⟨_, map_eq_ok.mpr ⟨field, hfield, rfl⟩⟩

/-- What the condition mentions and the list does not put out has to be there, and is enough. -/
theorem suffices_iff (hitems : items.mapM (Expr.fieldIn source.schema) = .ok fields)
    (hextra : ∀ name ∈ extra, name ∈ source.schema.fieldNames) :
    source.Suffices items q extra ↔
      ∀ name ∈ q.columns, name ∉ Expr.outputNames items → name ∈ extra := by
  have hwider := select_interim hitems hextra
  have hnames : (source.interim items fields extra).schema.fieldNames =
      Expr.outputNames items ++ extra := fieldNames_wideSchema hitems hextra
  have hiff : source.Suffices items q extra ↔
      ∃ plan, (source.interim items fields extra).filter q = .ok plan := by
    unfold Suffices
    rw [hwider]
    simp
  rw [hiff, exists_filter, hnames]
  simp only [List.mem_append]
  constructor
  · intro h name hname hout
    exact (h name hname).resolve_left hout
  · intro h name hname
    by_cases hout : name ∈ Expr.outputNames items
    · exact Or.inl hout
    · exact Or.inr (h name hname hout)

/-! ### Interim projections -/

/-- A SELECT list and a condition on it, with these columns carried from the one to the other.  The
last projection is there to drop them. -/
inductive Carries (source : Plan) (items : List Expr) (q : Expr) : List String → Plan → Prop where
  /-- Nothing is carried, and there is one projection. -/
  | nothing (s : Schema) : Carries source items q [] (.selection (.projection source items s) q)
  /-- The columns stand behind the list in an interim projection. -/
  | columns {carried : List String} (s s' : Schema) (h : carried ≠ []) :
      Carries source items q carried
        (.projection (.selection (.projection source (items ++ carried.map .column) s) q)
          ((Expr.outputNames items).map .column) s')

/-- The projection that a condition is put on, where another one follows. -/
def interim? : Plan → Option Plan
  | projection (selection (projection input exprs s) _) _ _ => some (projection input exprs s)
  | _ => none

theorem Carries.interim?_eq_none (h : Carries source items q carried plan) :
    plan.interim? = none ↔ carried = [] := by
  cases h with
  | nothing => simp [interim?]
  | columns s s' h => simp [interim?, h]

/-- Planning carries the columns that the condition mentions and the list does not put out. -/
theorem carries_of_query (h : source.query items q = .ok plan) :
    Carries source items q (q.carried (Expr.outputNames items)) plan := by
  obtain ⟨fields, -, ⟨hnil, rfl⟩ | ⟨hne, -, rfl⟩⟩ := query_eq_ok.mp h
  · rw [hnil]
    exact .nothing _
  · exact .columns _ _ hne

end Plan

namespace Select

open Plan

variable {source : Plan} {items : List Expr} {q : Expr}

/-- **The carried columns are the fewest that do.**  Where a SELECT list resolves and the condition
sees all its names, columns of the source suffice exactly when those are among them that the
condition mentions and the list does not put out.  The plan carries just these, in the order of
their code points and each once, and has an interim projection only if there are any. -/
theorem carries_least (resolved : ItemsResolve source items)
    (visible : ∀ name ∈ q.columns, Visible source items name) :
    (∀ extra : List String, (∀ name ∈ extra, name ∈ source.schema.fieldNames) →
      (source.Suffices items q extra ↔
        ∀ name ∈ q.columns, name ∉ Expr.outputNames items → name ∈ extra)) ∧
    ∃ carried plan, source.query items q = .ok plan ∧
      (∀ s tables, Lowers s tables source items (some q) → s.plan tables = .ok plan) ∧
      Carries source items q carried plan ∧
      (∀ name, name ∈ carried ↔ name ∈ q.columns ∧ name ∉ Expr.outputNames items) ∧
      carried.Pairwise (· < ·) ∧ (plan.interim? = none ↔ carried = []) := by
  refine ⟨?_, ?_⟩
  · intro extra hextra
    obtain ⟨fields, hfields⟩ := itemsResolve_iff.mp resolved
    exact suffices_iff hfields hextra
  · obtain ⟨plan, hplan⟩ := exists_query.mpr ⟨resolved, visible⟩
    have hcarries := carries_of_query hplan
    refine ⟨q.carried (Expr.outputNames items), plan, hplan, ?_, hcarries,
      fun name => Expr.mem_carried, q.carried_sorted _, hcarries.interim?_eq_none⟩
    intro s tables lowers
    rw [plan_of_lowers lowers]
    exact hplan

/-- A table with its columns in no order. -/
def staff : Plan :=
  .scan "staff" ⟨[⟨"state", .string⟩, ⟨"id", .long⟩, ⟨"name", .string⟩, ⟨"pay", .double⟩]⟩

/-- `id, pay * 2 AS state`. -/
def doubled : List Expr :=
  [.column "id", .renamed (.mult (.column "pay") (.long 2)) "state"]

/-- `state != name AND pay > 5`. -/
def wellPaid : Expr :=
  .and (.neq (.column "state") (.column "name")) (.gt (.column "pay") (.long 5))

/-- The list puts out a `state` of its own, so `name` and `pay` have to be carried and `state` need
not be. -/
theorem carries_least_doubled :
    staff.Suffices doubled wellPaid ["pay", "name"] ∧
      ¬ staff.Suffices doubled wellPaid ["state", "name"] ∧
      ∃ (carried : List String) (plan : Plan), staff.query doubled wellPaid = .ok plan ∧
        Carries staff doubled wellPaid carried plan ∧ "name" ∈ carried ∧ "state" ∉ carried := by
  have hresolved : ItemsResolve staff doubled := by
    unfold ItemsResolve
    decide
  have hvisible : ∀ name ∈ wellPaid.columns, Visible staff doubled name := by
    unfold Visible
    decide
  obtain ⟨hsuffices, carried, plan, hplan, -, hcarries, hmem, -, -⟩ :=
    carries_least hresolved hvisible
  refine ⟨(hsuffices _ (by decide)).mpr (by decide), ?_, carried, plan, hplan, hcarries, ?_, ?_⟩
  · intro h
    exact absurd ((hsuffices _ (by decide)).mp h) (by decide)
  · exact (hmem "name").mpr (by decide)
  · rw [hmem]
    decide

end Select

end SelectPlanner
