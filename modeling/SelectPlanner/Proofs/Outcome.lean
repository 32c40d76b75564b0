/-
What comes of a query text: a plan, or which error.

A statement is plannable when its table is registered, everything in it lowers, the SELECT list
mentions columns of the table, and the condition mentions outputs and columns of the table.  It
fails in one of five ways, which stand in the order in which planning comes upon them: each says
that what the ways before it are about is in order.  Both are read off the statement and the
schema of the table; the schemas that planning produces on its way appear in neither, since once
the first projection is made nothing after it can fail.
-/
import SelectPlanner.Context
import SelectPlanner.Proofs.Pushdown

namespace SelectPlanner

/-! ### Looking up the table -/

namespace Tables

variable {tables : Tables} {name : String}

theorem find_eq_ok {plan : Plan} : tables.find name = .ok plan ↔ tables[name]? = some plan := by
  cases h : tables[name]? <;> simp [find, h]

theorem find_eq_error {err : Error} :
    tables.find name = .error err ↔ tables[name]? = none ∧ err = .unknownTable name := by
  cases h : tables[name]? <;> simp [find, h, eq_comm]

end Tables

/-! ### The least missing column -/

namespace Schema

variable {s : Schema} {names : List String} {name : String}

/-- In a sorted list the first missing name is the least. -/
theorem missing?_sorted (sorted : names.Pairwise (· < ·)) :
    s.missing? names = some name ↔
      (name ∈ names ∧ name ∉ s.fieldNames) ∧
        ∀ other ∈ names, other ∉ s.fieldNames → name ≤ other := by
  have least {first : String} (h : s.missing? names = some first) :
      (first ∈ names ∧ first ∉ s.fieldNames) ∧
        ∀ other ∈ names, other ∉ s.fieldNames → first ≤ other := by
    obtain ⟨front, back, rfl, hfront, hfirst⟩ := missing?_eq_some.mp h
    refine ⟨⟨by simp, hfirst⟩, fun other hmem hother => ?_⟩
    obtain ⟨-, tail, -⟩ := List.pairwise_append.mp sorted
    rcases List.mem_append.mp hmem with hin | hin
    · exact absurd (hfront other hin) hother
    rcases List.mem_cons.mp hin with rfl | hin
    · exact Std.le_refl other
    · exact Std.le_of_lt ((List.pairwise_cons.mp tail).1 other hin)
  refine ⟨least, fun ⟨⟨hmem, hname⟩, hleast⟩ => ?_⟩
  cases hfound : s.missing? names with
  | none => exact absurd (missing?_eq_none.mp hfound name hmem) hname
  | some first =>
      obtain ⟨⟨hfirst, hmissing⟩, hfirstLeast⟩ := least hfound
      have below : name ≤ first := hleast first hfirst hmissing
      have above : first ≤ name := hfirstLeast name hmem hname
      exact congrArg some (String.le_antisymm above below)

end Schema

/-! ### Statements -/

namespace Select

/-- The table of a statement is registered, and its items and its condition lower to these. -/
structure Lowers (s : Select) (tables : Tables) (source : Plan) (items : List Expr)
    (condition : Option Expr) : Prop where
  table : tables[s.table]? = some source
  items : s.projection.mapM Ast.lower = .ok items
  condition : s.selection.mapM Ast.lower = .ok condition

/-- Every item resolves in the source. -/
def ItemsResolve (source : Plan) (items : List Expr) : Prop :=
  ∀ item ∈ items, ∀ name ∈ item.columns, name ∈ source.schema.fieldNames

/-- A name in a condition is an output or a column of the source. -/
def Visible (source : Plan) (items : List Expr) (name : String) : Prop :=
  name ∈ Expr.outputNames items ∨ name ∈ source.schema.fieldNames

/-- A statement has all that a plan of it needs. -/
def Plannable (s : Select) (tables : Tables) : Prop :=
  ∃ source items condition, s.Lowers tables source items condition ∧ ItemsResolve source items ∧
    ∀ q ∈ condition, ∀ name ∈ q.columns, Visible source items name

/-- What is wrong with a statement, in the order in which planning looks for it. -/
inductive Fault (s : Select) (tables : Tables) : Error → Prop where
  /-- No table of this name is registered. -/
  | table (missing : tables[s.table]? = none) : Fault s tables (.unknownTable s.table)
  /-- An item does not lower, and those before it do. -/
  | item {source : Plan} {before after : List Ast} {a : Ast} {err : Error}
      (table : tables[s.table]? = some source) (split : s.projection = before ++ a :: after)
      (lowered : ∀ b ∈ before, ∃ e, b.lower = .ok e) (refused : a.lower = .error err) :
      Fault s tables err
  /-- All items lower, and the condition does not. -/
  | condition {source : Plan} {items : List Expr} {c : Ast} {err : Error}
      (table : tables[s.table]? = some source)
      (lowered : s.projection.mapM Ast.lower = .ok items) (given : s.selection = some c)
      (refused : c.lower = .error err) : Fault s tables err
  /-- An item mentions a column that the source lacks, and what stands to the left of that column
  resolves. -/
  | itemColumn {source : Plan} {items before after : List Expr} {condition : Option Expr}
      {item : Expr} {front back : List String} {name : String}
      (lowers : s.Lowers tables source items condition) (split : items = before ++ item :: after)
      (resolved : ItemsResolve source before) (columns : item.columns = front ++ name :: back)
      (found : ∀ n ∈ front, n ∈ source.schema.fieldNames)
      (missing : name ∉ source.schema.fieldNames) :
      Fault s tables (.unknownColumn name source.schema.fieldNames)
  /-- All items resolve, and this is the least column of the condition that cannot be seen. -/
  | conditionColumn {source : Plan} {items : List Expr} {q : Expr} {name : String}
      (lowers : s.Lowers tables source items (some q)) (resolved : ItemsResolve source items)
      (mentioned : name ∈ q.columns) (missing : ¬ Visible source items name)
      (least : ∀ other ∈ q.columns, ¬ Visible source items other → name ≤ other) :
      Fault s tables (.unknownColumn name source.schema.fieldNames)

variable {s : Select} {tables : Tables} {source : Plan} {items : List Expr} {q : Expr}

/-! ### Resolving -/

theorem itemsResolve_iff :
    ItemsResolve source items ↔
      ∃ fields, items.mapM (Expr.fieldIn source.schema) = .ok fields := by
  rw [Expr.exists_mapM_fieldIn]
  refine ⟨fun resolved => ?_, fun resolved => ?_⟩
  · intro name hname
    obtain ⟨item, hitem, hcolumn⟩ := Expr.mem_columnsOf.mp hname
    exact resolved item hitem name hcolumn
  · intro item hitem name hcolumn
    exact resolved name (Expr.mem_columnsOf.mpr ⟨item, hitem, hcolumn⟩)

theorem mapM_fieldIn_eq_error_iff {err : Error} :
    items.mapM (Expr.fieldIn source.schema) = .error err ↔
      ∃ before item after front name back, items = before ++ item :: after ∧
        ItemsResolve source before ∧ item.columns = front ++ name :: back ∧
        (∀ n ∈ front, n ∈ source.schema.fieldNames) ∧ name ∉ source.schema.fieldNames ∧
        err = .unknownColumn name source.schema.fieldNames := by
  rw [mapM_eq_error]
  refine ⟨fun h => ?_, fun h => ?_⟩
  · obtain ⟨before, item, after, split, hbefore, hitem⟩ := h
    obtain ⟨name, hfirst, herr⟩ := Expr.fieldIn_eq_error.mp hitem
    obtain ⟨front, back, hcolumns, hfront, hname⟩ := Schema.missing?_eq_some.mp hfirst
    refine ⟨before, item, after, front, name, back, split, fun e he => ?_, hcolumns, hfront,
      hname, herr⟩
    exact Expr.exists_fieldIn.mp (hbefore e he)
  · obtain ⟨before, item, after, front, name, back, split, hbefore, hcolumns, hfront, hname,
      herr⟩ := h
    have hfirst := Schema.missing?_eq_some.mpr ⟨front, back, hcolumns, hfront, hname⟩
    exact ⟨before, item, after, split, fun e he => Expr.exists_fieldIn.mpr (hbefore e he),
      Expr.fieldIn_eq_error.mpr ⟨name, hfirst, herr⟩⟩

theorem carried_found_iff :
    (∀ name ∈ q.carried (Expr.outputNames items), name ∈ source.schema.fieldNames) ↔
      ∀ name ∈ q.columns, Visible source items name := by
  refine ⟨fun h => ?_, fun h => ?_⟩
  · intro name hname
    by_cases hout : name ∈ Expr.outputNames items
    · exact Or.inl hout
    · exact Or.inr (h name (Expr.mem_carried.mpr ⟨hname, hout⟩))
  · intro name hname
    obtain ⟨hcolumn, hout⟩ := Expr.mem_carried.mp hname
    exact (h name hcolumn).resolve_left hout

/-- The first carried column that the source lacks is the least name that cannot be seen. -/
theorem missing?_carried {name : String} :
    source.schema.missing? (q.carried (Expr.outputNames items)) = some name ↔
      name ∈ q.columns ∧ ¬ Visible source items name ∧
        ∀ other ∈ q.columns, ¬ Visible source items other → name ≤ other := by
  have hidden (n : String) :
      (n ∈ q.carried (Expr.outputNames items) ∧ n ∉ source.schema.fieldNames) ↔
        n ∈ q.columns ∧ ¬ Visible source items n := by
    rw [Expr.mem_carried, Visible, not_or, and_assoc]
  rw [Schema.missing?_sorted (q.carried_sorted _), hidden, and_assoc]
  refine ⟨fun ⟨hname, hmissing, least⟩ => ?_, fun ⟨hname, hmissing, least⟩ => ?_⟩
  · refine ⟨hname, hmissing, ?_⟩
    intro other hother hout
    obtain ⟨hcarried, hlacks⟩ := (hidden other).mpr ⟨hother, hout⟩
    exact least other hcarried hlacks
  · refine ⟨hname, hmissing, ?_⟩
    intro other hcarried hlacks
    obtain ⟨hother, hout⟩ := (hidden other).mp ⟨hcarried, hlacks⟩
    exact least other hother hout

/-- A query with a condition is planned where its items resolve and its condition sees every
name. -/
theorem exists_query :
    (∃ plan, source.query items q = .ok plan) ↔
      ItemsResolve source items ∧ ∀ name ∈ q.columns, Visible source items name := by
  rw [itemsResolve_iff, ← carried_found_iff]
  refine ⟨fun ⟨plan, hplan⟩ => ?_, fun ⟨⟨fields, hfields⟩, hcarried⟩ => ?_⟩
  · obtain ⟨fields, hfields, ⟨hnil, -⟩ | ⟨-, hcarried, -⟩⟩ := Plan.query_eq_ok.mp hplan
    · exact ⟨⟨fields, hfields⟩, by simp [hnil]⟩
    · exact ⟨⟨fields, hfields⟩, hcarried⟩
  · by_cases hnil : q.carried (Expr.outputNames items) = []
    · exact ⟨_, Plan.query_eq_ok.mpr ⟨fields, hfields, Or.inl ⟨hnil, rfl⟩⟩⟩
    · exact ⟨_, Plan.query_eq_ok.mpr ⟨fields, hfields, Or.inr ⟨hnil, hcarried, rfl⟩⟩⟩

/-! ### The plan of a statement -/

theorem plan_of_lowers {condition : Option Expr} (h : s.Lowers tables source items condition) :
    s.plan tables = condition.elim (source.select items) (source.query items) := by
  have htable := Tables.find_eq_ok.mpr h.table
  have hcondition := h.condition
  rw [Select.plan, htable]
  show (s.projection.mapM Ast.lower >>= _) = _
  rw [h.items]
  cases hselection : s.selection with
  | none =>
      rw [hselection] at hcondition
      obtain rfl : none = condition := Except.ok.inj hcondition
      rfl
  | some c =>
      rw [hselection] at hcondition
      obtain ⟨q, hq, rfl⟩ := map_eq_ok.mp hcondition
      show (c.lower >>= source.query items) = source.query items q
      rw [hq]
      rfl

/-- **A statement is planned exactly when it has all that its plan needs.** -/
theorem exists_plan : (∃ plan, s.plan tables = .ok plan) ↔ s.Plannable tables := by
  refine ⟨fun ⟨plan, hplan⟩ => ?_, fun ⟨source, items, condition, lowers, resolved, visible⟩ => ?_⟩
  · obtain ⟨source, items, htable, hitems, ⟨hnone, hselect⟩ | ⟨c, q, hc, hq, hquery⟩⟩ :=
      plan_eq_ok.mp hplan
    · obtain ⟨fields, hfields, -⟩ := map_eq_ok.mp hselect
      exact ⟨source, items, none, ⟨Tables.find_eq_ok.mp htable, hitems, by rw [hnone]; rfl⟩,
        itemsResolve_iff.mpr ⟨fields, hfields⟩, by simp⟩
    · obtain ⟨resolved, visible⟩ := exists_query.mp ⟨plan, hquery⟩
      exact ⟨source, items, some q,
        ⟨Tables.find_eq_ok.mp htable, hitems, condition_lowers hc hq⟩,
        resolved, by simpa using visible⟩
  · rw [plan_of_lowers lowers]
    cases condition with
    | none =>
        obtain ⟨fields, hfields⟩ := itemsResolve_iff.mp resolved
        exact ⟨_, Plan.select_eq hfields⟩
    | some q => exact exists_query.mpr ⟨resolved, visible q rfl⟩

theorem fault_of_lowers {condition : Option Expr} {err : Error}
    (lowers : s.Lowers tables source items condition) (h : s.plan tables = .error err) :
    s.Fault tables err := by
  have unresolved : items.mapM (Expr.fieldIn source.schema) = .error err → s.Fault tables err := by
    intro hitems
    obtain ⟨before, item, after, front, name, back, split, resolved, hcolumns, found, missing,
      rfl⟩ := mapM_fieldIn_eq_error_iff.mp hitems
    exact .itemColumn lowers split resolved hcolumns found missing
  rw [plan_of_lowers lowers] at h
  cases condition with
  | none => exact unresolved (map_eq_error.mp h)
  | some q =>
      rcases Plan.query_eq_error.mp h with hitems | ⟨resolved, name, hname, rfl⟩
      · exact unresolved hitems
      · obtain ⟨mentioned, missing, least⟩ := missing?_carried.mp hname
        exact .conditionColumn lowers (itemsResolve_iff.mpr resolved) mentioned missing least

/-- A statement that is not planned has something wrong with it, which is the error. -/
theorem fault_of_plan {err : Error} (h : s.plan tables = .error err) : s.Fault tables err := by
  cases htable : tables[s.table]? with
  | none =>
      rw [Select.plan, Tables.find_eq_error.mpr ⟨htable, rfl⟩] at h
      obtain rfl := Except.error.inj h
      exact .table htable
  | some source =>
      have hfind := Tables.find_eq_ok.mpr htable
      cases hitems : s.projection.mapM Ast.lower with
      | error err' =>
          obtain rfl : err' = err := by
            simpa [Select.plan, hfind, bind, Except.bind, hitems] using h
          obtain ⟨before, a, after, split, lowered, refused⟩ := mapM_eq_error.mp hitems
          exact .item htable split lowered refused
      | ok items =>
          cases hselection : s.selection with
          | none => exact fault_of_lowers ⟨htable, hitems, by rw [hselection]; rfl⟩ h
          | some c =>
              cases hc : c.lower with
              | error err' =>
                  obtain rfl : err' = err := by
                    simpa [Select.plan, hfind, bind, Except.bind, hitems, hselection, hc] using h
                  exact .condition htable hitems hselection hc
              | ok q => exact fault_of_lowers ⟨htable, hitems, condition_lowers hselection hc⟩ h

/-- What is wrong with a statement keeps it from being planned. -/
theorem plan_of_fault {err : Error} (fault : s.Fault tables err) : s.plan tables = .error err := by
  cases fault with
  | table missing =>
      rw [Select.plan, Tables.find_eq_error.mpr ⟨missing, rfl⟩]
      rfl
  | item table split lowered refused =>
      have hitems := mapM_eq_error.mpr ⟨_, _, _, split, lowered, refused⟩
      simp [Select.plan, Tables.find_eq_ok.mpr table, bind, Except.bind, hitems]
  | condition table lowered given refused =>
      simp [Select.plan, Tables.find_eq_ok.mpr table, bind, Except.bind, lowered, given, refused]
  | @itemColumn source items before after condition item front back name lowers split resolved
      columns found missing =>
      have hitems := mapM_fieldIn_eq_error_iff.mpr
        ⟨before, item, after, front, name, back, split, resolved, columns, found, missing, rfl⟩
      rw [plan_of_lowers lowers]
      cases condition with
      | none => exact map_eq_error.mpr hitems
      | some q => exact Plan.query_eq_error.mpr (Or.inl hitems)
  | @conditionColumn source items q name lowers resolved mentioned missing least =>
      have hname := missing?_carried.mpr ⟨mentioned, missing, least⟩
      rw [plan_of_lowers lowers]
      exact Plan.query_eq_error.mpr (Or.inr ⟨itemsResolve_iff.mp resolved, name, hname, rfl⟩)

end Select

/-- Once the first projection of a query is made, its selection and its last projection can be made
too. -/
theorem Plan.after_select {source interim : Plan} {items : List Expr} {q : Expr}
    (h : source.select (items ++ (q.carried (Expr.outputNames items)).map Expr.column) =
      .ok interim) :
    ∃ filtered plan, interim.filter q = .ok filtered ∧
      filtered.select ((Expr.outputNames items).map Expr.column) = .ok plan := by
  obtain ⟨all, hall, -⟩ := map_eq_ok.mp h
  obtain ⟨fields, carriedFields, hfields, hcolumns, -⟩ := mapM_append_eq_ok.mp hall
  have hcarried : ∀ name ∈ q.carried (Expr.outputNames items),
      name ∈ source.schema.fieldNames := by
    have found := Expr.exists_mapM_fieldIn.mp ⟨carriedFields, hcolumns⟩
    rwa [Expr.columnsOf_map_column] at found
  rw [select_interim hfields hcarried] at h
  obtain rfl := Except.ok.inj h
  exact ⟨_, _, filter_interim hfields hcarried (q.columns_needed _), select_wide hfields hcarried⟩

/-- **What comes of a query text.**  It is planned exactly when it is a statement that has all that
its plan needs; otherwise the error is that of reading it, or the first thing that is wrong with
the statement.  In either case only the first projection can fail. -/
theorem Context.query_outcome (c : Context) (text : String) :
    ((∃ plan, c.query text = .ok plan) ↔
      ∃ s, Select.ofText text = .ok s ∧ s.Plannable c.tables) ∧
    (∀ err, c.query text = .error err ↔
      Select.ofText text = .error err ∨
        ∃ s, Select.ofText text = .ok s ∧ s.Fault c.tables err) ∧
    ∀ source items q interim,
      Plan.select source (items ++ (q.carried (Expr.outputNames items)).map Expr.column) =
        .ok interim →
      ∃ filtered plan, interim.filter q = .ok filtered ∧
        filtered.select ((Expr.outputNames items).map Expr.column) = .ok plan := by
  refine ⟨?_, fun err => ?_, fun _ _ _ _ => Plan.after_select⟩
  · simp only [Context.query, bind_eq_ok, ← Select.exists_plan]
    refine ⟨fun ⟨plan, s, hs, hplan⟩ => ⟨s, hs, plan, hplan⟩,
      fun ⟨s, hs, plan, hplan⟩ => ⟨plan, s, hs, hplan⟩⟩
  · have hplan (s : Select) : s.plan c.tables = .error err ↔ s.Fault c.tables err :=
      ⟨Select.fault_of_plan, Select.plan_of_fault⟩
    simp only [Context.query, bind_eq_error, hplan]

end SelectPlanner
