/-
An expression resolves where its columns are.

`fieldIn` walks an expression and stops at the first column that the schema lacks; `columns` lists
the columns from left to right.  The two agree: an expression has a field exactly when no column
of the list is missing, and otherwise the complaint is about the first one missing, with the names
of the schema.  The same holds of a list of expressions and of the lists of their columns put
together, which is all that planning asks of a SELECT list.
-/
import SelectPlanner.Plan

namespace SelectPlanner

/-! ### Results one after the other -/

section Results

variable {ε α β : Type}

theorem bind_eq_ok {x : Except ε α} {f : α → Except ε β} {b : β} :
    x >>= f = .ok b ↔ ∃ a, x = .ok a ∧ f a = .ok b := by
  cases x <;> simp [bind, Except.bind]

theorem bind_eq_error {x : Except ε α} {f : α → Except ε β} {e : ε} :
    x >>= f = .error e ↔ x = .error e ∨ ∃ a, x = .ok a ∧ f a = .error e := by
  cases x <;> simp [bind, Except.bind]

theorem map_eq_ok {x : Except ε α} {f : α → β} {b : β} :
    x.map f = .ok b ↔ ∃ a, x = .ok a ∧ f a = b := by
  cases x <;> simp [Except.map]

theorem map_eq_error {x : Except ε α} {f : α → β} {e : ε} :
    x.map f = .error e ↔ x = .error e := by
  cases x <;> simp [Except.map]

variable {f : α → Except ε β}

theorem mapM_cons_eq_ok {a : α} {as : List α} {bs : List β} :
    (a :: as).mapM f = .ok bs ↔ ∃ b rest, f a = .ok b ∧ as.mapM f = .ok rest ∧ bs = b :: rest := by
  rw [List.mapM_cons, bind_eq_ok]
  simp only [bind_eq_ok, pure, Except.pure, Except.ok.injEq, eq_comm (a := bs)]
  refine ⟨fun h => ?_, fun h => ?_⟩
  · obtain ⟨b, hb, rest, hrest, rfl⟩ := h
    exact ⟨b, rest, hb, hrest, rfl⟩
  · obtain ⟨b, rest, hb, hrest, rfl⟩ := h
    exact ⟨b, hb, rest, hrest, rfl⟩

theorem mapM_cons_eq_error {a : α} {as : List α} {e : ε} :
    (a :: as).mapM f = .error e ↔
      f a = .error e ∨ ∃ b, f a = .ok b ∧ as.mapM f = .error e := by
  rw [List.mapM_cons, bind_eq_error]
  simp [bind_eq_error, pure, Except.pure]

theorem mapM_append_eq_ok {as as' : List α} {bs : List β} :
    (as ++ as').mapM f = .ok bs ↔
      ∃ front back, as.mapM f = .ok front ∧ as'.mapM f = .ok back ∧ bs = front ++ back := by
  rw [List.mapM_append, bind_eq_ok]
  simp only [bind_eq_ok, pure, Except.pure, Except.ok.injEq, eq_comm (a := bs)]
  refine ⟨fun h => ?_, fun h => ?_⟩
  · obtain ⟨front, hfront, back, hback, rfl⟩ := h
    exact ⟨front, back, hfront, hback, rfl⟩
  · obtain ⟨front, back, hfront, hback, rfl⟩ := h
    exact ⟨front, hfront, back, hback, rfl⟩

/-- A list fails where the first element that fails does. -/
theorem mapM_eq_error {as : List α} {e : ε} :
    as.mapM f = .error e ↔ ∃ before a after, as = before ++ a :: after ∧
      (∀ b ∈ before, ∃ x, f b = .ok x) ∧ f a = .error e := by
  induction as with
  | nil => simp [pure, Except.pure]
  | cons a as ih =>
      rw [mapM_cons_eq_error, ih]
      refine ⟨fun h => ?_, fun h => ?_⟩
      · rcases h with ha | ⟨x, ha, before, a', after, rfl, hbefore, ha'⟩
        · exact ⟨[], a, as, rfl, by simp, ha⟩
        · exact ⟨a :: before, a', after, rfl, by simpa [ha] using hbefore, ha'⟩
      · obtain ⟨before, a', after, split, hbefore, ha'⟩ := h
        cases before with
        | nil =>
            obtain ⟨rfl, rfl⟩ := List.cons.inj split
            exact Or.inl ha'
        | cons b before =>
            obtain ⟨rfl, rfl⟩ := List.cons.inj split
            obtain ⟨x, hx⟩ := hbefore a (by simp)
            exact Or.inr ⟨x, hx, before, a', after, rfl,
              fun b hb => hbefore b (by simp [hb]), ha'⟩

end Results

/-! ### The first missing column -/

/-- The first of these names that the schema lacks. -/
def Schema.missing? (s : Schema) (names : List String) : Option String :=
  names.find? fun name => !s.fieldNames.contains name

namespace Schema

variable {s : Schema}

theorem missing?_append (names names' : List String) :
    s.missing? (names ++ names') = (s.missing? names).or (s.missing? names') :=
  List.find?_append

theorem missing?_eq_none {names : List String} :
    s.missing? names = none ↔ ∀ name ∈ names, name ∈ s.fieldNames := by
  simp [missing?]

theorem missing?_eq_some {names : List String} {name : String} :
    s.missing? names = some name ↔ ∃ front back, names = front ++ name :: back ∧
      (∀ n ∈ front, n ∈ s.fieldNames) ∧ name ∉ s.fieldNames := by
  rw [missing?, List.find?_eq_some_iff_append]
  refine ⟨fun h => ?_, fun h => ?_⟩
  · obtain ⟨hname, front, back, split, hfront⟩ := h
    exact ⟨front, back, split, by simpa using hfront, by simpa using hname⟩
  · obtain ⟨front, back, split, hfront, hname⟩ := h
    exact ⟨by simpa using hname, front, back, split, by simpa using hfront⟩

end Schema

namespace Expr

variable {s : Schema}

/-- An expression has a type, or its first missing column is the complaint. -/
theorem typeIn_cases (s : Schema) (e : Expr) :
    (s.missing? e.columns = none ∧ ∃ type, e.typeIn s = .ok type) ∨
      ∃ name, s.missing? e.columns = some name ∧
        e.typeIn s = .error (.unknownColumn name s.fieldNames) := by
  induction e with
  | column name =>
      by_cases h : name ∈ s.fieldNames
      · obtain ⟨field, hfield⟩ := Option.isSome_iff_exists.mp (Schema.field?_isSome.mpr h)
        refine Or.inl ⟨by simpa [columns, Schema.missing?] using h, field.dataType, ?_⟩
        rw [typeIn, Schema.resolve_eq_ok.mpr hfield]
        rfl
      · refine Or.inr ⟨name, by simpa [columns, Schema.missing?] using h, ?_⟩
        rw [typeIn, Schema.resolve_eq_error.mpr ⟨h, rfl⟩]
        rfl
  | renamed expr name ih => exact ih
  | string value => exact Or.inl ⟨rfl, _, rfl⟩
  | long value => exact Or.inl ⟨rfl, _, rfl⟩
  | double value => exact Or.inl ⟨rfl, _, rfl⟩
  | binary op left right ihl ihr =>
      rw [typeIn, columns, Schema.missing?_append]
      -- The left operand is looked at first; the right one counts only where the left has a type.
      rcases ihl with ⟨hl, type, ht⟩ | ⟨name, hl, ht⟩
      · rw [hl, ht, Option.none_or]
        rcases ihr with ⟨hr, type', ht'⟩ | ⟨name, hr, ht'⟩
        · exact Or.inl ⟨hr, op.resultType type, by rw [ht']; rfl⟩
        · exact Or.inr ⟨name, hr, by rw [ht']; rfl⟩
      · rw [hl, ht, Option.some_or]
        exact Or.inr ⟨name, rfl, rfl⟩

/-- The field of an expression bears its output name. -/
theorem name_of_fieldIn {e : Expr} {field : Field} (h : e.fieldIn s = .ok field) :
    field.name = e.outputName := by
  obtain ⟨type, -, rfl⟩ := map_eq_ok.mp h
  rfl

theorem fieldIn_cases (s : Schema) (e : Expr) :
    (s.missing? e.columns = none ∧ ∃ field, e.fieldIn s = .ok field) ∨
      ∃ name, s.missing? e.columns = some name ∧
        e.fieldIn s = .error (.unknownColumn name s.fieldNames) := by
  rcases typeIn_cases s e with ⟨h, type, ht⟩ | ⟨name, h, ht⟩
  · exact Or.inl ⟨h, _, by rw [fieldIn, ht]; rfl⟩
  · exact Or.inr ⟨name, h, by rw [fieldIn, ht]; rfl⟩

theorem fieldIn_eq_error {e : Expr} {err : Error} :
    e.fieldIn s = .error err ↔
      ∃ name, s.missing? e.columns = some name ∧ err = .unknownColumn name s.fieldNames := by
  rcases fieldIn_cases s e with ⟨h, field, hfield⟩ | ⟨name, h, hfield⟩
  · simp [h, hfield]
  · simp [h, hfield, eq_comm]

theorem exists_fieldIn {e : Expr} :
    (∃ field, e.fieldIn s = .ok field) ↔ ∀ name ∈ e.columns, name ∈ s.fieldNames := by
  rw [← Schema.missing?_eq_none]
  rcases fieldIn_cases s e with ⟨h, field, hfield⟩ | ⟨name, h, hfield⟩
  · simp [h, hfield]
  · simp [h, hfield]

/-! ### Lists of expressions -/

/-- The columns of expressions, from left to right. -/
def columnsOf (es : List Expr) : List String := es.flatMap columns

/-- The names under which expressions are put out. -/
def outputNames (es : List Expr) : List String := es.map outputName

theorem mem_columnsOf {es : List Expr} {name : String} :
    name ∈ columnsOf es ↔ ∃ e ∈ es, name ∈ e.columns :=
  List.mem_flatMap

theorem columnsOf_append (es es' : List Expr) :
    columnsOf (es ++ es') = columnsOf es ++ columnsOf es' :=
  List.flatMap_append

theorem columnsOf_map_column (names : List String) : columnsOf (names.map column) = names := by
  induction names with
  | nil => rfl
  | cons name names ih => rw [List.map_cons, columnsOf, List.flatMap_cons, ← columnsOf, ih]; rfl

theorem outputNames_append (es es' : List Expr) :
    outputNames (es ++ es') = outputNames es ++ outputNames es' :=
  List.map_append

theorem outputNames_map_column (names : List String) :
    outputNames (names.map column) = names := by
  rw [outputNames, List.map_map]
  exact List.map_id names

/-- Expressions have fields, or the first missing column of the first that lacks one is the
complaint. -/
theorem mapM_fieldIn_cases (s : Schema) (es : List Expr) :
    (s.missing? (columnsOf es) = none ∧ ∃ fields, es.mapM (fieldIn s) = .ok fields) ∨
      ∃ name, s.missing? (columnsOf es) = some name ∧
        es.mapM (fieldIn s) = .error (.unknownColumn name s.fieldNames) := by
  induction es with
  | nil => exact Or.inl ⟨rfl, [], rfl⟩
  | cons e es ih =>
      rw [columnsOf, List.flatMap_cons, Schema.missing?_append]
      rcases fieldIn_cases s e with ⟨h, field, hfield⟩ | ⟨name, h, hfield⟩
      · rw [h, Option.none_or]
        rcases ih with ⟨hs, fields, hfields⟩ | ⟨name, hs, hfields⟩
        · exact Or.inl ⟨hs, field :: fields,
            mapM_cons_eq_ok.mpr ⟨field, fields, hfield, hfields, rfl⟩⟩
        · exact Or.inr ⟨name, hs, mapM_cons_eq_error.mpr (Or.inr ⟨field, hfield, hfields⟩)⟩
      · rw [h, Option.some_or]
        exact Or.inr ⟨name, rfl, mapM_cons_eq_error.mpr (Or.inl hfield)⟩

theorem mapM_fieldIn_eq_error {es : List Expr} {err : Error} :
    es.mapM (fieldIn s) = .error err ↔
      ∃ name, s.missing? (columnsOf es) = some name ∧ err = .unknownColumn name s.fieldNames := by
  rcases mapM_fieldIn_cases s es with ⟨h, fields, hfields⟩ | ⟨name, h, hfields⟩
  · simp [h, hfields]
  · simp [h, hfields, eq_comm]

/-- Expressions have fields where the schema has all their columns. -/
theorem exists_mapM_fieldIn {es : List Expr} :
    (∃ fields, es.mapM (fieldIn s) = .ok fields) ↔
      ∀ name ∈ columnsOf es, name ∈ s.fieldNames := by
  rw [← Schema.missing?_eq_none]
  rcases mapM_fieldIn_cases s es with ⟨h, fields, hfields⟩ | ⟨name, h, hfields⟩
  · simp [h, hfields]
  · simp [h, hfields]

theorem names_of_mapM_fieldIn {es : List Expr} {fields : List Field}
    (h : es.mapM (fieldIn s) = .ok fields) : fields.map Field.name = outputNames es := by
  induction es generalizing fields with
  | nil =>
      obtain rfl : [] = fields := by simpa [pure, Except.pure] using h
      rfl
  | cons e es ih =>
      obtain ⟨field, rest, hfield, hrest, rfl⟩ := mapM_cons_eq_ok.mp h
      rw [outputNames, List.map_cons, List.map_cons, name_of_fieldIn hfield, ih hrest]
      rfl

end Expr

end SelectPlanner
