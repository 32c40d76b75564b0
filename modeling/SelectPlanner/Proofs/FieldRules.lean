/-
The rules by which an expression gets its field.

`fieldIn` finds the type of an expression and its name apart from each other: the type by walking the
expression over a schema, the name without one.  The rules say both at once, and only in terms of the
fields that the parts of the expression get: a column gets the field that the schema has for it, name
and all, and an operator puts the names of its operands' fields together.  That the two agree is what
makes an output name the name of a field, whatever stands in the expression.

A rule is missing for one thing only, a column that the schema lacks.  So there is a field exactly
where every column is one of the schema, and otherwise the complaint is about the first that is not,
read from left to right; a new name for an expression does not keep the columns in it from counting.
-/
import SelectPlanner.Proofs.Pushdown

namespace SelectPlanner.Expr

/-- The field that an expression gets over rows of a schema. -/
inductive Produces (s : Schema) : Expr → Field → Prop where
  /-- A column gets the first field of that name. -/
  | column {name : String} {field : Field} (h : s.field? name = some field) :
      Produces s (.column name) field
  /-- A new name replaces the name alone. -/
  | renamed {expr : Expr} {field : Field} (name : String) (h : Produces s expr field) :
      Produces s (.renamed expr name) ⟨name, field.dataType⟩
  | string (value : String) : Produces s (.string value) ⟨value, .string⟩
  | long (value : Int64) : Produces s (.long value) ⟨Numeral.renderInt value.toInt, .long⟩
  | double (value : Double) : Produces s (.double value) ⟨value.render, .double⟩
  /-- Both operands get fields, and the type is up to the operator and the left one. -/
  | binary {left right : Expr} {f g : Field} (op : Operator) (hl : Produces s left f)
      (hr : Produces s right g) :
      Produces s (.binary op left right)
        ⟨f.name ++ " " ++ op.symbol ++ " " ++ g.name, op.resultType f.dataType⟩

variable {s : Schema} {e : Expr} {field : Field}

/-! ### The rules and the two halves of a field -/

/-- The names of fields are put together as output names are. -/
theorem Produces.name_eq (h : e.Produces s field) : field.name = e.outputName := by
  induction h with
  | column h => exact Schema.name_of_field? h
  | renamed | string | long | double => rfl
  | binary op _ _ ihl ihr => rw [outputName, ← ihl, ← ihr]

theorem Produces.typeIn_eq (h : e.Produces s field) : e.typeIn s = .ok field.dataType := by
  induction h with
  | column h =>
      rw [typeIn, Schema.resolve_eq_ok.mpr h]
      rfl
  | renamed _ _ ih => exact ih
  | string | long | double => rfl
  | binary op _ _ ihl ihr =>
      rw [typeIn, ihl, ihr]
      rfl

theorem Produces.fieldIn_eq (h : e.Produces s field) : e.fieldIn s = .ok field := by
  rw [fieldIn, h.typeIn_eq, ← h.name_eq]
  rfl

/-- The rules reach every expression whose columns the schema has. -/
theorem exists_produces (h : ∀ name ∈ e.columns, name ∈ s.fieldNames) :
    ∃ field, e.Produces s field := by
  induction e with
  | column name =>
      obtain ⟨field, hfield⟩ :=
        Option.isSome_iff_exists.mp (Schema.field?_isSome.mpr (h name List.mem_cons_self))
      exact ⟨field, .column hfield⟩
  | renamed expr name ih =>
      obtain ⟨field, hfield⟩ := ih h
      exact ⟨_, .renamed name hfield⟩
  | string value => exact ⟨_, .string value⟩
  | long value => exact ⟨_, .long value⟩
  | double value => exact ⟨_, .double value⟩
  | binary op left right ihl ihr =>
      obtain ⟨hleft, hright⟩ := List.forall_mem_append.mp h
      obtain ⟨f, hf⟩ := ihl hleft
      obtain ⟨g, hg⟩ := ihr hright
      exact ⟨_, .binary op hf hg⟩

/-- An expression has the field that the rules give it, and no other. -/
theorem fieldIn_eq_ok_iff : e.fieldIn s = .ok field ↔ e.Produces s field := by
  refine ⟨fun h => ?_, Produces.fieldIn_eq⟩
  obtain ⟨field', h'⟩ := exists_produces (exists_fieldIn.mp ⟨field, h⟩)
  have hsame : field' = field := Except.ok.inj (h'.fieldIn_eq.symm.trans h)
  exact hsame ▸ h'

/-! ### What comes of resolving an expression -/

/-- **Resolving an expression and listing its columns agree.**  There is a field exactly when the
schema has every column that the expression references; it is the one that the rules give, and bears
the output name.  Otherwise the first missing column from left to right is the complaint, with the
names that the schema has. -/
theorem fieldIn_outcome (s : Schema) (e : Expr) :
    ((∃ field, e.fieldIn s = .ok field) ↔ ∀ name ∈ e.references, name ∈ s.fieldNames) ∧
    (∀ field, e.fieldIn s = .ok field → e.Produces s field ∧ field.name = e.outputName) ∧
    ∀ err, e.fieldIn s = .error err ↔
      ∃ front name back, e.columns = front ++ name :: back ∧
        (∀ n ∈ front, n ∈ s.fieldNames) ∧ name ∉ s.fieldNames ∧
        err = .unknownColumn name s.fieldNames := by
  refine ⟨?_, fun field h => ?_, fun err => ?_⟩
  · simp only [mem_references]
    exact exists_fieldIn
  · have hproduces := fieldIn_eq_ok_iff.mp h
    exact ⟨hproduces, hproduces.name_eq⟩
  · rw [fieldIn_eq_error]
    refine ⟨fun h => ?_, fun h => ?_⟩
    · obtain ⟨name, hfirst, herr⟩ := h
      obtain ⟨front, back, hcolumns, hfront, hname⟩ := Schema.missing?_eq_some.mp hfirst
      exact ⟨front, name, back, hcolumns, hfront, hname, herr⟩
    · obtain ⟨front, name, back, hcolumns, hfront, hname, herr⟩ := h
      exact ⟨name, Schema.missing?_eq_some.mpr ⟨front, back, hcolumns, hfront, hname⟩, herr⟩

/-- The left operand is asked first, and the new name hides none of its columns. -/
example :
    (binary (.comparison .lt) (.renamed (.column "bonus") "id") (.column "rate")).fieldIn
        ⟨[⟨"id", .long⟩, ⟨"state", .string⟩]⟩ =
      .error (.unknownColumn "bonus" ["id", "state"]) := by
  decide

end SelectPlanner.Expr
