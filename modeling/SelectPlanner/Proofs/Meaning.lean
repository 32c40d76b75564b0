/-
What plans and queries mean, and that planning keeps the meaning.

Nothing here says what a value is: an `Interpretation` gives the meaning of literals and operators
and says which values count as true.  A plan is run over the rows of one plan inside it, the source
that a query was planned over.  A query has a meaning of its own, `answer`, which knows neither
plans nor carried columns: the rows of the source at which the condition holds, each as the values
of the SELECT list, where a name in the condition is an output if there is one of that name and a
column of the source if there is none.

The two agree whenever the output names are distinct or the condition needs no others.  The step
behind it is that a row of the interim projection gives every name of the condition the value that
the answer gives it on the source row; the last projection then finds every item under its own
name, which is where distinct names are needed.
-/
import SelectPlanner.Proofs.Pushdown
import Mathlib.Data.List.Nodup

namespace SelectPlanner

universe u

/-- What literals, operators and truth are, over some values. -/
structure Interpretation (V : Type u) where
  /-- The value of a text. -/
  string : String → V
  /-- The value of a whole number. -/
  long : Int64 → V
  /-- The value of a floating point number. -/
  double : Double → V
  /-- The value of an operator at the values of its operands. -/
  apply : Operator → V → V → V
  /-- Whether a value counts as true. -/
  holds : V → Bool
  /-- The value of a column that a row does not have. -/
  absent : V

variable {V : Type u}

/-! ### Expressions -/

/-- The value of an expression, where `env` says what names denote. -/
def Expr.eval (I : Interpretation V) (env : String → V) : Expr → V
  | column name => env name
  | renamed expr _ => expr.eval I env
  | string value => I.string value
  | long value => I.long value
  | double value => I.double value
  | binary op left right => I.apply op (left.eval I env) (right.eval I env)

/-- Only the columns that an expression mentions bear on its value. -/
theorem Expr.eval_congr (I : Interpretation V) {env env' : String → V} {e : Expr}
    (h : ∀ name ∈ e.columns, env name = env' name) : e.eval I env = e.eval I env' := by
  induction e with
  | column name => exact h name (by simp [columns])
  | renamed expr name ih => exact ih h
  | string value | long value | double value => rfl
  | binary op left right ihl ihr =>
      have hl := ihl fun name hname => h name (by simp [columns, hname])
      have hr := ihr fun name hname => h name (by simp [columns, hname])
      rw [eval, eval, hl, hr]

/-- The value in a row beside the first field of this name. -/
def Schema.valueOf? (s : Schema) (row : List V) (name : String) : Option V :=
  ((s.fieldNames.zip row).find? (·.1 == name)).map Prod.snd

namespace Interpretation

/-- What names denote in a row of a schema. -/
def env (I : Interpretation V) (s : Schema) (row : List V) (name : String) : V :=
  (s.valueOf? row name).getD I.absent

/-- The values of a list of expressions at a row of a schema. -/
def values (I : Interpretation V) (s : Schema) (es : List Expr) (row : List V) : List V :=
  es.map (·.eval I (I.env s row))

/-- Whether a condition holds at a row of a schema. -/
def keeps (I : Interpretation V) (s : Schema) (q : Expr) (row : List V) : Bool :=
  I.holds (q.eval I (I.env s row))

end Interpretation

/-! ### Plans -/

/-- The rows of a plan when the plan `source` inside it has these rows. -/
def Plan.run (p : Plan) (I : Interpretation V) (source : Plan) (rows : List (List V)) :
    List (List V) :=
  if p = source then rows
  else
    match p with
    | scan .. => []
    | projection input exprs _ => (input.run I source rows).map (I.values input.schema exprs)
    | selection input q => (input.run I source rows).filter (I.keeps input.schema q)

namespace Plan

variable (I : Interpretation V) (source : Plan) (rows : List (List V)) {input : Plan}

theorem run_source : source.run I source rows = rows := by
  rw [run.eq_def, if_pos rfl]

/-- A plan is none of those that stand on it. -/
theorem run_projection (h : source.nodes.length ≤ input.nodes.length) (exprs : List Expr)
    (s : Schema) :
    (projection input exprs s).run I source rows =
      (input.run I source rows).map (I.values input.schema exprs) := by
  have other : projection input exprs s ≠ source := by
    intro same
    rw [← same, nodes, List.length_cons] at h
    omega
  rw [run, if_neg other]

theorem run_selection (h : source.nodes.length ≤ input.nodes.length) (q : Expr) :
    (selection input q).run I source rows =
      (input.run I source rows).filter (I.keeps input.schema q) := by
  have other : selection input q ≠ source := by
    intro same
    rw [← same, nodes, List.length_cons] at h
    omega
  rw [run, if_neg other]

end Plan

/-! ### Queries -/

namespace Interpretation

/-- What names denote in the condition of a query: the first output of that name, and the column
of the source where there is none. -/
def queryEnv (I : Interpretation V) (source : Schema) (items : List Expr) (row : List V)
    (name : String) : V :=
  match items.find? (·.outputName == name) with
  | some item => item.eval I (I.env source row)
  | none => I.env source row name

/-- Whether a row of the source meets the condition of a query. -/
def meets (I : Interpretation V) (source : Schema) (items : List Expr) (q : Expr)
    (row : List V) : Bool :=
  I.holds (q.eval I (I.queryEnv source items row))

/-- The rows that a query asks for: the values of the SELECT list at those rows of the source that
meet the condition, if there is one. -/
def answer (I : Interpretation V) (source : Schema) (items : List Expr) (condition : Option Expr)
    (rows : List (List V)) : List (List V) :=
  (rows.filter fun row => condition.all (I.meets source items · row)).map (I.values source items)

end Interpretation

/-- A query can be planned without a name changing its meaning on the way: the output names are
distinct, or the condition mentions no other names. -/
def Unambiguous (items : List Expr) (condition : Option Expr) : Prop :=
  ∀ q ∈ condition, (Expr.outputNames items).Nodup ∨
    ∀ name ∈ q.columns, name ∈ Expr.outputNames items

/-! ### Rows of outputs -/

/-- In a row of values put out by expressions, a name denotes the value of the first of that
name. -/
theorem Schema.valueOf?_map {s : Schema} {es : List Expr} (h : s.fieldNames = Expr.outputNames es)
    (f : Expr → V) (name : String) :
    s.valueOf? (es.map f) name = (es.find? (·.outputName == name)).map f := by
  rw [valueOf?, h, Expr.outputNames, List.zip_map', List.find?_map, Option.map_map]
  rfl

theorem Expr.find?_column {names : List String} {name : String} (h : name ∈ names) :
    (names.map column).find? (·.outputName == name) = some (column name) := by
  have found : (names.find? (· == name)).isSome :=
    List.find?_isSome.mpr ⟨name, h, beq_self_eq_true _⟩
  obtain ⟨other, hother⟩ := Option.isSome_iff_exists.mp found
  obtain rfl : other = name := by simpa using List.find?_some hother
  rw [List.find?_map]
  exact congrArg (Option.map column) hother

/-- Where output names are distinct, every item is the first of its name. -/
theorem Expr.find?_outputName {items : List Expr} (h : (outputNames items).Nodup) {item : Expr}
    (hitem : item ∈ items) : items.find? (·.outputName == item.outputName) = some item := by
  have found : (items.find? (·.outputName == item.outputName)).isSome :=
    List.find?_isSome.mpr ⟨item, hitem, beq_self_eq_true _⟩
  obtain ⟨first, hfirst⟩ := Option.isSome_iff_exists.mp found
  have same : first.outputName = item.outputName := by simpa using List.find?_some hfirst
  rw [hfirst, List.inj_on_of_nodup_map h (List.mem_of_find?_eq_some hfirst) hitem same]

namespace Interpretation

variable (I : Interpretation V) {source s : Schema} {items : List Expr} {carried : List String}

section Interim

variable (names : s.fieldNames = Expr.outputNames (items ++ carried.map Expr.column))

include names

/-- A row of the interim projection gives a name the value that it has in the condition. -/
theorem env_interim (row : List V) {name : String} (h : name ∈ Expr.outputNames items ++ carried) :
    I.env s (I.values source (items ++ carried.map Expr.column) row) name =
      I.queryEnv source items row name := by
  rw [env, values, Schema.valueOf?_map names, List.find?_append, queryEnv]
  cases hfound : items.find? (·.outputName == name) with
  | some item => rfl
  | none =>
      -- No item has this name, so it is one of the carried columns.
      have hout : name ∉ Expr.outputNames items := by
        intro hmem
        obtain ⟨item, hitem, rfl⟩ := List.mem_map.mp hmem
        exact absurd (List.find?_eq_none.mp hfound item hitem) (by simp)
      have hcarried : name ∈ carried := (List.mem_append.mp h).resolve_left hout
      rw [Option.none_or, Expr.find?_column hcarried]
      rfl

theorem keeps_interim {q : Expr} (hq : ∀ name ∈ q.columns, name ∈ Expr.outputNames items ++ carried)
    (row : List V) :
    I.keeps s q (I.values source (items ++ carried.map Expr.column) row) =
      I.meets source items q row := by
  rw [keeps, meets, Expr.eval_congr I fun name hname => I.env_interim names row (hq name hname)]

/-- The last projection finds every item under its own name. -/
theorem values_outputs (distinct : (Expr.outputNames items).Nodup) (row : List V) :
    I.values s ((Expr.outputNames items).map Expr.column)
        (I.values source (items ++ carried.map Expr.column) row) =
      I.values source items row := by
  rw [values, Expr.outputNames, List.map_map, List.map_map, values]
  refine List.map_congr_left fun item hitem => ?_
  have hname : item.outputName ∈ Expr.outputNames items ++ carried :=
    List.mem_append_left _ (List.mem_map_of_mem hitem)
  show I.env s (I.values source _ row) item.outputName = item.eval I (I.env source row)
  rw [I.env_interim names row hname, queryEnv, Expr.find?_outputName distinct hitem]

end Interim

end Interpretation

/-! ### Planning keeps the meaning -/

namespace Plan

variable (I : Interpretation V) {source : Plan} {items : List Expr} {fields : List Field} {q : Expr}
  (rows : List (List V))

theorem run_select :
    (projection source items ⟨fields⟩).run I source rows =
      I.answer source.schema items none rows := by
  rw [run_projection I source rows (Nat.le_refl _), run_source, Interpretation.answer]
  simp

section Queries

variable (hitems : items.mapM (Expr.fieldIn source.schema) = .ok fields)

include hitems

theorem run_narrow (hnil : q.carried (Expr.outputNames items) = []) :
    (source.narrow items fields q).run I source rows =
      I.answer source.schema items (some q) rows := by
  have names : (⟨fields⟩ : Schema).fieldNames = Expr.outputNames (items ++ [].map Expr.column) := by
    rw [List.map_nil, List.append_nil]
    exact Expr.names_of_mapM_fieldIn hitems
  have needed : ∀ name ∈ q.columns, name ∈ Expr.outputNames items ++ [] := by
    simpa using Expr.carried_eq_nil.mp hnil
  have kept : ∀ row, I.keeps ⟨fields⟩ q (I.values source.schema items row) =
      I.meets source.schema items q row := fun row => by
    have whole : I.keeps ⟨fields⟩ q (I.values source.schema (items ++ [].map Expr.column) row) =
        I.meets source.schema items q row := I.keeps_interim names needed row
    rwa [List.map_nil, List.append_nil] at whole
  rw [narrow, run_selection I source rows (by simp [nodes]),
    run_projection I source rows (Nat.le_refl _), run_source, List.filter_map]
  show ((rows.filter fun row => I.keeps ⟨fields⟩ q (I.values source.schema items row)).map
    (I.values source.schema items)) = _
  simp only [kept]
  rfl

theorem run_wide {carried : List String}
    (hcarried : ∀ name ∈ carried, name ∈ source.schema.fieldNames)
    (needed : ∀ name ∈ q.columns, name ∈ Expr.outputNames items ++ carried)
    (distinct : (Expr.outputNames items).Nodup) :
    (source.wide items fields q carried).run I source rows =
      I.answer source.schema items (some q) rows := by
  have names : (source.wideSchema fields carried).fieldNames =
      Expr.outputNames (items ++ carried.map Expr.column) := by
    rw [fieldNames_wideSchema hitems hcarried, Expr.outputNames_append,
      Expr.outputNames_map_column]
  rw [wide, run_projection I source rows (by simp only [nodes, interim, List.length_cons]; omega),
    run_selection I source rows (by simp [nodes, interim]), interim,
    run_projection I source rows (Nat.le_refl _), run_source, List.filter_map, List.map_map]
  show ((rows.filter fun row => I.keeps (source.wideSchema fields carried) q
      (I.values source.schema (items ++ carried.map Expr.column) row)).map fun row =>
    I.values (source.wideSchema fields carried) ((Expr.outputNames items).map Expr.column)
      (I.values source.schema (items ++ carried.map Expr.column) row)) = _
  simp only [I.keeps_interim names needed, I.values_outputs names distinct]
  rfl

end Queries

end Plan

/-- **Planning keeps the meaning of a query.**  A statement that is planned has a table, and its
SELECT list and condition lower; whatever literals, operators and truth are, the plan turns any
rows of the table into those that the query asks for. -/
theorem Select.run_plan {s : Select} {tables : Tables} {plan : Plan}
    (h : s.plan tables = .ok plan) :
    ∃ source items condition, tables.find s.table = .ok source ∧
      s.projection.mapM Ast.lower = .ok items ∧ s.selection.mapM Ast.lower = .ok condition ∧
      (Unambiguous items condition → ∀ {V : Type u} (I : Interpretation V) (rows : List (List V)),
        plan.run I source rows = I.answer source.schema items condition rows) := by
  obtain ⟨source, items, hsource, hitems, ⟨hnone, hselect⟩ | ⟨c, q, hc, hq, hquery⟩⟩ :=
    Select.plan_eq_ok.mp h
  · refine ⟨source, items, none, hsource, hitems, by rw [hnone]; rfl, fun _ {V} I rows => ?_⟩
    obtain ⟨fields, -, rfl⟩ := map_eq_ok.mp hselect
    exact Plan.run_select I rows
  · refine ⟨source, items, some q, hsource, hitems, condition_lowers hc hq,
      fun unambiguous {V} I rows => ?_⟩
    obtain ⟨fields, hfields, ⟨hnil, rfl⟩ | ⟨hne, hcarried, rfl⟩⟩ := Plan.query_eq_ok.mp hquery
    · exact Plan.run_narrow I rows hfields hnil
    · rcases unambiguous q rfl with distinct | hall
      · exact Plan.run_wide I rows hfields hcarried (Expr.columns_needed q _) distinct
      · exact absurd (Expr.carried_eq_nil.mpr hall) hne

/-- `SELECT b AS a, a * c FROM t WHERE a < c`, where `t` has the columns `a`, `b` and `c`. -/
def shadowing : Select :=
  ⟨[.renamed (.identifier "b") "a", .binary (.identifier "a") "*" (.identifier "c")],
    some (.binary (.identifier "a") "<" (.identifier "c")), "t"⟩

/-- The table that it reads. -/
def shadowed : Plan := .scan "t" ⟨[⟨"a", .long⟩, ⟨"b", .long⟩, ⟨"c", .long⟩]⟩

/-- Whole numbers that are multiplied and compared by size. -/
def sizes : Interpretation Int where
  string _ := 0
  long := Int64.toInt
  double _ := 0
  apply op left right :=
    match op with
    | .arithmetic .mult => left * right
    | _ => if left < right then 1 else 0
  holds value := value == 1
  absent := 0

/-- The condition is about the output `a`, which is the column `b`, and about the column `c`, which
is carried. -/
theorem run_plan_shadowing :
    ∃ plan, shadowing.plan ((∅ : Tables).insert "t" shadowed) = .ok plan ∧
      plan.run sizes shadowed [[1, 5, 7], [2, 9, 3], [4, 2, 6]] = [[5, 7], [2, 24]] := by
  obtain ⟨plan, planned⟩ :
      ∃ plan, shadowing.plan ((∅ : Tables).insert "t" shadowed) = .ok plan := ⟨_, rfl⟩
  obtain ⟨source, items, condition, hsource, hitems, hcondition, answers⟩ :=
    Select.run_plan.{0} planned
  obtain rfl : shadowed = source := Except.ok.inj hsource
  obtain rfl := Except.ok.inj hitems
  obtain rfl := Except.ok.inj hcondition
  refine ⟨plan, planned, ?_⟩
  rw [answers (fun _ _ => Or.inl (by decide))]
  decide

end SelectPlanner
