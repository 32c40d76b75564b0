/-
The output schema of a query.

A query is meant to put out its SELECT list and nothing else, whatever its condition.  The names
and their number are always those of the SELECT list.  The types are too as long as no column is
carried.  With carried columns the last projection looks every output up again by its name and
finds the first of that name, so two outputs of one name get the type of the first: the schema is
that of the SELECT list exactly when outputs of one name have one type.
-/
import SelectPlanner.Proofs.Pushdown

namespace SelectPlanner

namespace Schema

variable {s : Schema}

/-- Fields of one name have one type. -/
def Uniform (s : Schema) : Prop :=
  ∀ f ∈ s.fields, ∀ g ∈ s.fields, f.name = g.name → f.dataType = g.dataType

/-- A schema is uniform when a name finds every field that bears it. -/
theorem uniform_iff : s.Uniform ↔ ∀ f ∈ s.fields, s.field? f.name = some f := by
  refine ⟨fun uniform => ?_, fun found => ?_⟩
  · intro f hf
    obtain ⟨first, hfirst⟩ :=
      Option.isSome_iff_exists.mp (field?_isSome.mpr (List.mem_map_of_mem hf))
    have same : first.name = f.name := name_of_field? hfirst
    have type := uniform first (List.mem_of_find?_eq_some hfirst) f hf same
    rw [hfirst, show first = f from congr (congrArg Field.mk same) type]
  · intro f hf g hg same
    have hfg : some f = some g := by rw [← found f hf, ← found g hg, same]
    rw [Option.some.inj hfg]

/-- Looking up fields by their names gives them back when each is the first of its name. -/
theorem filterMap_field?_eq_self {fields : List Field} (h : ∀ f ∈ fields, f ∈ s.fields) :
    fields.filterMap (fun f => s.field? f.name) = fields ↔
      ∀ f ∈ fields, s.field? f.name = some f := by
  induction fields with
  | nil => simp
  | cons f fields ih =>
      obtain ⟨first, hfirst⟩ := Option.isSome_iff_exists.mp
        (field?_isSome.mpr (List.mem_map_of_mem (h f (by simp))))
      rw [List.filterMap_cons, hfirst, List.forall_mem_cons, hfirst, List.cons_eq_cons,
        ih fun g hg => h g (by simp [hg]), Option.some_inj]

theorem fieldsOf_fieldNames : s.fieldsOf s.fieldNames = s.fields ↔ s.Uniform := by
  rw [uniform_iff, fieldsOf, fieldNames, List.filterMap_map]
  exact filterMap_field?_eq_self fun f hf => hf

end Schema

/-- **The schema of a query with a condition.**  The same SELECT list without the condition is
planned too, into the fields of its items over the table.  The condition never changes the names;
it leaves the schema as it is exactly when it needs output names only or outputs of one name have
one type. -/
theorem Select.schema_plan {s : Select} {tables : Tables} {plan : Plan} {c : Ast}
    (hc : s.selection = some c) (h : s.plan tables = .ok plan) :
    ∃ source items q plain, tables.find s.table = .ok source ∧
      s.projection.mapM Ast.lower = .ok items ∧ c.lower = .ok q ∧
      { s with selection := none }.plan tables = .ok plain ∧
      items.mapM (Expr.fieldIn source.schema) = .ok plain.schema.fields ∧
      plan.schema.fieldNames = plain.schema.fieldNames ∧
      (plan.schema = plain.schema ↔
        (∀ name ∈ q.columns, name ∈ plain.schema.fieldNames) ∨ plain.schema.Uniform) := by
  obtain ⟨source, items, hsource, hitems, ⟨hnone, -⟩ | ⟨c', q, hc', hq, hquery⟩⟩ :=
    Select.plan_eq_ok.mp h
  · rw [hc] at hnone
    cases hnone
  obtain rfl : c = c' := Option.some.inj (hc.symm.trans hc')
  obtain ⟨fields, hfields, hplan⟩ := Plan.query_eq_ok.mp hquery
  have names : (⟨fields⟩ : Schema).fieldNames = Expr.outputNames items :=
    Expr.names_of_mapM_fieldIn hfields
  refine ⟨source, items, q, .projection source items ⟨fields⟩, hsource, hitems, hq,
    Select.plan_eq_ok.mpr ⟨source, items, hsource, hitems, Or.inl ⟨rfl, Plan.select_eq hfields⟩⟩,
    hfields, ?_⟩
  rcases hplan with ⟨hnil, rfl⟩ | ⟨hne, hcarried, rfl⟩
  · refine ⟨rfl, iff_of_true rfl (Or.inl ?_)⟩
    show ∀ name ∈ q.columns, name ∈ (⟨fields⟩ : Schema).fieldNames
    rw [names]
    exact Expr.carried_eq_nil.mp hnil
  · show Schema.fieldNames ⟨Schema.fieldsOf ⟨fields⟩ (Expr.outputNames items)⟩ =
        (⟨fields⟩ : Schema).fieldNames ∧
      ((⟨Schema.fieldsOf ⟨fields⟩ (Expr.outputNames items)⟩ : Schema) = ⟨fields⟩ ↔
        (∀ name ∈ q.columns, name ∈ (⟨fields⟩ : Schema).fieldNames) ∨
          (⟨fields⟩ : Schema).Uniform)
    rw [← names] at hne ⊢
    refine ⟨Schema.names_fieldsOf fun _ hname => hname, ?_⟩
    rw [Schema.mk.injEq, ← Expr.carried_eq_nil]
    simp only [hne, false_or]
    exact Schema.fieldsOf_fieldNames

/-- A table of two whole numbers with a text between them. -/
def mixed : Tables :=
  (∅ : Tables).insert "t" (.scan "t" ⟨[⟨"a", .long⟩, ⟨"b", .string⟩, ⟨"c", .long⟩]⟩)

/-- `SELECT a AS x, <other> AS x FROM t WHERE c > 1`, where `c` is carried. -/
def twoNamedAlike (other : String) : Select :=
  ⟨[.renamed (.identifier "a") "x", .renamed (.identifier other) "x"],
    some (.binary (.identifier "c") ">" (.long 1)), "t"⟩

/-- Two outputs of one name and one type keep their schema. -/
theorem schema_plan_one_type :
    ∃ plan plain, (twoNamedAlike "c").plan mixed = .ok plan ∧
      { twoNamedAlike "c" with selection := none }.plan mixed = .ok plain ∧
      plan.schema = plain.schema := by
  obtain ⟨plan, planned⟩ : ∃ plan, (twoNamedAlike "c").plan mixed = .ok plan := ⟨_, rfl⟩
  obtain ⟨source, items, q, plain, -, -, -, hplain, -, -, same⟩ := Select.schema_plan rfl planned
  refine ⟨plan, plain, planned, hplain, same.mpr (Or.inr ?_)⟩
  obtain rfl := Except.ok.inj hplain
  show ∀ f ∈ [Field.mk "x" .long, ⟨"x", .long⟩], ∀ g ∈ [Field.mk "x" .long, ⟨"x", .long⟩],
    f.name = g.name → f.dataType = g.dataType
  decide

/-- The second of two outputs of one name and two types gets the type of the first: a condition
does change the schema. -/
theorem schema_plan_two_types :
    ¬ ∀ (s : Select) (tables : Tables) (plan plain : Plan), s.selection.isSome →
      s.plan tables = .ok plan → { s with selection := none }.plan tables = .ok plain →
      plan.schema = plain.schema := by
  intro kept
  have same := kept (twoNamedAlike "b") mixed _ _ rfl rfl rfl
  have types : [Field.mk "x" .long, ⟨"x", .long⟩] = [Field.mk "x" .long, ⟨"x", .string⟩] :=
    congrArg Schema.fields same
  revert types
  decide

end SelectPlanner
