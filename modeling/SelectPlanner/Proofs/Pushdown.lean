/-
The plan of a query with a condition, in closed form.

`Plan.query` calls `select` and `filter` up to three times, each against the schema that the call
before produced, and any of them could fail.  What it does is settled by two questions alone: are
the columns of the SELECT list fields of the source, and is every column of the condition either
an output name or a field of the source.  If both hold the plan is one of two: `narrow` where the
condition needs output names only, and `wide` where columns are carried.  Otherwise the complaint
comes from the SELECT list, or is about the least carried column that the source lacks.  The later
calls succeed because the wide projection has every column that the condition mentions and every
output name.
-/
import SelectPlanner.Planning
import SelectPlanner.Proofs.Resolution
import Mathlib.Data.String.Basic

namespace SelectPlanner

/-! ### The carried columns -/

namespace Expr

variable {q : Expr} {names : List String} {name : String}

theorem mem_references : name ∈ q.references ↔ name ∈ q.columns := by
  rw [references, Std.TreeSet.mem_toList, Std.TreeSet.mem_ofList, List.contains_iff_mem]

theorem mem_carried : name ∈ q.carried names ↔ name ∈ q.columns ∧ name ∉ names := by
  simp [carried, mem_references]

/-- Nothing is carried when the condition needs output names only. -/
theorem carried_eq_nil : q.carried names = [] ↔ ∀ name ∈ q.columns, name ∈ names := by
  simp [List.eq_nil_iff_forall_not_mem, mem_carried]

/-- What a condition mentions is put out or carried. -/
theorem columns_needed (q : Expr) (names : List String) :
    ∀ name ∈ q.columns, name ∈ names ++ q.carried names := by
  intro name hname
  by_cases hout : name ∈ names
  · exact List.mem_append_left _ hout
  · exact List.mem_append_right _ (mem_carried.mpr ⟨hname, hout⟩)

/-- The carried columns stand in the order of their code points, each once. -/
theorem carried_sorted (q : Expr) (names : List String) : (q.carried names).Pairwise (· < ·) := by
  have ordered : q.references.Pairwise (· < ·) := by
    refine Std.TreeSet.ordered_toList.imp fun {a b} hab => ?_
    exact compareOfLessAndEq_eq_lt.mp hab
  exact ordered.filter _

end Expr

/-! ### Columns as a SELECT list -/

namespace Schema

variable {s : Schema} {names : List String}

/-- The fields that these names denote. -/
def fieldsOf (s : Schema) (names : List String) : List Field := names.filterMap s.field?

theorem mapM_column (h : ∀ name ∈ names, name ∈ s.fieldNames) :
    (names.map Expr.column).mapM (Expr.fieldIn s) = .ok (s.fieldsOf names) := by
  induction names with
  | nil => rfl
  | cons name names ih =>
      obtain ⟨field, hfield⟩ := Option.isSome_iff_exists.mp (field?_isSome.mpr (h name (by simp)))
      have hname : field.name = name := name_of_field? hfield
      have hcolumn : (Expr.column name).fieldIn s = .ok field := by
        rw [Expr.fieldIn, Expr.typeIn, resolve_eq_ok.mpr hfield]
        simp [Except.map, Expr.outputName, ← hname]
      rw [fieldsOf, List.filterMap_cons, hfield]
      exact mapM_cons_eq_ok.mpr
        ⟨field, s.fieldsOf names, hcolumn, ih fun n hn => h n (by simp [hn]), rfl⟩

theorem names_fieldsOf (h : ∀ name ∈ names, name ∈ s.fieldNames) :
    (s.fieldsOf names).map Field.name = names := by
  rw [Expr.names_of_mapM_fieldIn (mapM_column h), Expr.outputNames_map_column]

/-- A schema with more fields at its end. -/
def extend (s : Schema) (fields : List Field) : Schema := ⟨s.fields ++ fields⟩

@[simp]
theorem fieldNames_extend (fields : List Field) :
    (s.extend fields).fieldNames = s.fieldNames ++ fields.map Field.name :=
  List.map_append

/-- Fields at the end do not change what an earlier name denotes. -/
theorem field?_extend {name : String} (h : name ∈ s.fieldNames) (fields : List Field) :
    (s.extend fields).field? name = s.field? name := by
  obtain ⟨field, hfield⟩ := Option.isSome_iff_exists.mp (field?_isSome.mpr h)
  rw [field?] at hfield
  rw [field?, field?, extend, List.find?_append, hfield, Option.some_or]

theorem fieldsOf_extend (h : ∀ name ∈ names, name ∈ s.fieldNames) (fields : List Field) :
    (s.extend fields).fieldsOf names = s.fieldsOf names :=
  List.filterMap_congr fun name hname => field?_extend (h name hname) fields

end Schema

/-! ### The two plans -/

namespace Plan

variable {p source : Plan} {es items : List Expr} {q : Expr} {fields : List Field}

theorem select_eq (h : es.mapM (Expr.fieldIn p.schema) = .ok fields) :
    p.select es = .ok (.projection p es ⟨fields⟩) := by
  rw [select, h]
  rfl

theorem filter_eq (h : ∀ name ∈ q.columns, name ∈ p.schema.fieldNames) :
    p.filter q = .ok (.selection p q) := by
  rcases Expr.fieldIn_cases p.schema q with ⟨-, field, hfield⟩ | ⟨name, hname, -⟩
  · rw [filter, hfield]
    rfl
  · rw [Schema.missing?_eq_none.mpr h] at hname
    cases hname

/-- The schema of a SELECT list with these fields and of carried columns behind it. -/
def wideSchema (source : Plan) (fields : List Field) (carried : List String) : Schema :=
  Schema.extend ⟨fields⟩ (source.schema.fieldsOf carried)

/-- A SELECT list with carried columns behind it. -/
def interim (source : Plan) (items : List Expr) (fields : List Field) (carried : List String) :
    Plan :=
  .projection source (items ++ carried.map Expr.column) (source.wideSchema fields carried)

/-- A SELECT list, and a selection on top. -/
def narrow (source : Plan) (items : List Expr) (fields : List Field) (q : Expr) : Plan :=
  .selection (.projection source items ⟨fields⟩) q

/-- A SELECT list with carried columns, a selection, and a projection that drops the columns. -/
def wide (source : Plan) (items : List Expr) (fields : List Field) (q : Expr)
    (carried : List String) : Plan :=
  .projection (.selection (source.interim items fields carried) q)
    ((Expr.outputNames items).map Expr.column)
    ⟨Schema.fieldsOf ⟨fields⟩ (Expr.outputNames items)⟩

section Shapes

variable {carried : List String} (hitems : items.mapM (Expr.fieldIn source.schema) = .ok fields)
  (hcarried : ∀ name ∈ carried, name ∈ source.schema.fieldNames)

include hitems hcarried

theorem fieldNames_wideSchema :
    (source.wideSchema fields carried).fieldNames = Expr.outputNames items ++ carried := by
  rw [wideSchema, Schema.fieldNames_extend, Schema.names_fieldsOf hcarried, Schema.fieldNames,
    Expr.names_of_mapM_fieldIn hitems]

theorem select_interim :
    source.select (items ++ carried.map Expr.column) =
      .ok (source.interim items fields carried) :=
  select_eq (mapM_append_eq_ok.mpr ⟨fields, _, hitems, Schema.mapM_column hcarried, rfl⟩)

/-- The selection goes through: what the condition mentions is put out or carried. -/
theorem filter_interim (hq : ∀ name ∈ q.columns, name ∈ Expr.outputNames items ++ carried) :
    (source.interim items fields carried).filter q =
      .ok (.selection (source.interim items fields carried) q) := by
  refine filter_eq fun name hname => ?_
  show name ∈ (source.wideSchema fields carried).fieldNames
  rw [fieldNames_wideSchema hitems hcarried]
  exact hq name hname

/-- The last projection goes through: every output name is a field of the wide schema. -/
theorem select_wide :
    (Plan.selection (source.interim items fields carried) q).select
        ((Expr.outputNames items).map Expr.column) =
      .ok (source.wide items fields q carried) := by
  have names : (⟨fields⟩ : Schema).fieldNames = Expr.outputNames items :=
    Expr.names_of_mapM_fieldIn hitems
  have found : ∀ name ∈ Expr.outputNames items,
      name ∈ (source.wideSchema fields carried).fieldNames := by
    intro name hname
    rw [fieldNames_wideSchema hitems hcarried]
    exact List.mem_append_left carried hname
  have columns := Schema.mapM_column found
  rw [wideSchema, Schema.fieldsOf_extend (by simp [names])] at columns
  exact select_eq columns

end Shapes

/-! ### What planning a query comes to -/

section Query

variable (hitems : items.mapM (Expr.fieldIn source.schema) = .ok fields)

include hitems

theorem query_narrow (hnil : q.carried (Expr.outputNames items) = []) :
    source.query items q = .ok (source.narrow items fields q) := by
  have names : fields.map Field.name = Expr.outputNames items := Expr.names_of_mapM_fieldIn hitems
  have kept : (Plan.projection source items ⟨fields⟩).filter q =
      .ok (source.narrow items fields q) := by
    refine filter_eq fun name hname => ?_
    show name ∈ fields.map Field.name
    rw [names]
    exact Expr.carried_eq_nil.mp hnil name hname
  simp only [query, hitems, bind, Except.bind, names, hnil, select_eq hitems, kept]

theorem query_wide (hne : q.carried (Expr.outputNames items) ≠ [])
    (hcarried : ∀ name ∈ q.carried (Expr.outputNames items), name ∈ source.schema.fieldNames) :
    source.query items q =
      .ok (source.wide items fields q (q.carried (Expr.outputNames items))) := by
  have names : fields.map Field.name = Expr.outputNames items := Expr.names_of_mapM_fieldIn hitems
  -- The match falls through to carried columns, for there are some.
  simp only [query, hitems, bind, Except.bind, names, select_interim hitems hcarried,
    filter_interim hitems hcarried (q.columns_needed _), select_wide hitems hcarried]

/-- A carried column that the source lacks keeps the wide projection from being made. -/
theorem query_missing {name : String}
    (hmissing : source.schema.missing? (q.carried (Expr.outputNames items)) = some name) :
    source.query items q = .error (.unknownColumn name source.schema.fieldNames) := by
  have names : fields.map Field.name = Expr.outputNames items := Expr.names_of_mapM_fieldIn hitems
  have resolved : source.schema.missing? (Expr.columnsOf items) = none :=
    Schema.missing?_eq_none.mpr (Expr.exists_mapM_fieldIn.mp ⟨fields, hitems⟩)
  have refused : (items ++ (q.carried (Expr.outputNames items)).map Expr.column).mapM
      (Expr.fieldIn source.schema) = .error (.unknownColumn name source.schema.fieldNames) := by
    refine Expr.mapM_fieldIn_eq_error.mpr ⟨name, ?_, rfl⟩
    rw [Expr.columnsOf_append, Expr.columnsOf_map_column, Schema.missing?_append, resolved,
      Option.none_or, hmissing]
  have hne : q.carried (Expr.outputNames items) ≠ [] := by
    intro hnil
    rw [hnil] at hmissing
    cases hmissing
  simp only [query, hitems, bind, Except.bind, names, select, refused, Except.map]

end Query

/-- The four ways in which planning a query with a condition can end. -/
theorem query_cases (source : Plan) (items : List Expr) (q : Expr) :
    (∃ err, items.mapM (Expr.fieldIn source.schema) = .error err ∧
      source.query items q = .error err) ∨
    ∃ fields, items.mapM (Expr.fieldIn source.schema) = .ok fields ∧
      ((q.carried (Expr.outputNames items) = [] ∧
          source.query items q = .ok (source.narrow items fields q)) ∨
        (q.carried (Expr.outputNames items) ≠ [] ∧
          (∀ name ∈ q.carried (Expr.outputNames items), name ∈ source.schema.fieldNames) ∧
          source.query items q =
            .ok (source.wide items fields q (q.carried (Expr.outputNames items)))) ∨
        ∃ name, source.schema.missing? (q.carried (Expr.outputNames items)) = some name ∧
          source.query items q = .error (.unknownColumn name source.schema.fieldNames)) := by
  cases hitems : items.mapM (Expr.fieldIn source.schema) with
  | error err => exact Or.inl ⟨err, rfl, by rw [query, hitems]; rfl⟩
  | ok fields =>
      refine Or.inr ⟨fields, rfl, ?_⟩
      by_cases hnil : q.carried (Expr.outputNames items) = []
      · exact Or.inl ⟨hnil, query_narrow hitems hnil⟩
      cases hmissing : source.schema.missing? (q.carried (Expr.outputNames items)) with
      | none =>
          have hcarried := Schema.missing?_eq_none.mp hmissing
          exact Or.inr (Or.inl ⟨hnil, hcarried, query_wide hitems hnil hcarried⟩)
      | some name => exact Or.inr (Or.inr ⟨name, rfl, query_missing hitems hmissing⟩)

/-- A query with a condition is planned exactly into one of the two plans. -/
theorem query_eq_ok {plan : Plan} :
    source.query items q = .ok plan ↔
      ∃ fields, items.mapM (Expr.fieldIn source.schema) = .ok fields ∧
        (q.carried (Expr.outputNames items) = [] ∧ plan = source.narrow items fields q ∨
          q.carried (Expr.outputNames items) ≠ [] ∧
            (∀ name ∈ q.carried (Expr.outputNames items), name ∈ source.schema.fieldNames) ∧
            plan = source.wide items fields q (q.carried (Expr.outputNames items))) := by
  refine ⟨fun h => ?_, fun h => ?_⟩
  · rcases query_cases source items q with ⟨err, -, herr⟩ |
      ⟨fields, hitems, ⟨hnil, hok⟩ | ⟨hne, hcarried, hok⟩ | ⟨name, -, herr⟩⟩
    · rw [herr] at h
      cases h
    · rw [hok] at h
      exact ⟨fields, hitems, Or.inl ⟨hnil, (Except.ok.inj h).symm⟩⟩
    · rw [hok] at h
      exact ⟨fields, hitems, Or.inr ⟨hne, hcarried, (Except.ok.inj h).symm⟩⟩
    · rw [herr] at h
      cases h
  · obtain ⟨fields, hitems, ⟨hnil, rfl⟩ | ⟨hne, hcarried, rfl⟩⟩ := h
    · exact query_narrow hitems hnil
    · exact query_wide hitems hne hcarried

/-- What keeps a query with a condition from being planned: an item that does not resolve, or else a
carried column that the source lacks. -/
theorem query_eq_error {err : Error} :
    source.query items q = .error err ↔
      items.mapM (Expr.fieldIn source.schema) = .error err ∨
        (∃ fields, items.mapM (Expr.fieldIn source.schema) = .ok fields) ∧
          ∃ name, source.schema.missing? (q.carried (Expr.outputNames items)) = some name ∧
            err = .unknownColumn name source.schema.fieldNames := by
  rcases query_cases source items q with ⟨err', hitems, herr⟩ |
    ⟨fields, hitems, ⟨hnil, hok⟩ | ⟨-, hcarried, hok⟩ | ⟨name, hname, herr⟩⟩
  · simp [hitems, herr]
  · simp [hitems, hok, hnil, Schema.missing?]
  · simp [hitems, hok, Schema.missing?_eq_none.mpr hcarried]
  · simp [hitems, herr, hname, eq_comm]

end Plan

/-! ### Statements -/

namespace Select

variable {s : Select} {tables : Tables}

theorem condition_lowers {c : Ast} {q : Expr} (given : s.selection = some c)
    (hq : c.lower = .ok q) : s.selection.mapM Ast.lower = .ok (some q) := by
  rw [given]
  exact map_eq_ok.mpr ⟨q, hq, rfl⟩

/-- A statement that is planned has a table, and everything in it lowers. -/
theorem plan_eq_ok {plan : Plan} :
    s.plan tables = .ok plan ↔
      ∃ source items, tables.find s.table = .ok source ∧ s.projection.mapM Ast.lower = .ok items ∧
        (s.selection = none ∧ source.select items = .ok plan ∨
          ∃ c q, s.selection = some c ∧ c.lower = .ok q ∧ source.query items q = .ok plan) := by
  rw [Select.plan, bind_eq_ok]
  simp only [bind_eq_ok]
  refine ⟨fun h => ?_, fun h => ?_⟩
  · obtain ⟨source, hsource, items, hitems, h⟩ := h
    refine ⟨source, items, hsource, hitems, ?_⟩
    split at h
    · exact Or.inl ⟨‹_›, h⟩
    · rename_i c hc
      obtain ⟨q, hq, h⟩ := bind_eq_ok.mp h
      exact Or.inr ⟨c, q, hc, hq, h⟩
  · obtain ⟨source, items, hsource, hitems, ⟨hnone, h⟩ | ⟨c, q, hc, hq, h⟩⟩ := h
    · exact ⟨source, hsource, items, hitems, by rw [hnone]; exact h⟩
    · exact ⟨source, hsource, items, hitems, by rw [hc]; exact bind_eq_ok.mpr ⟨q, hq, h⟩⟩

end Select

end SelectPlanner
