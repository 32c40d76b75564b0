/-
Queries survive what happens to other columns.

A query asks a schema only what the names in it denote.  So two schemas that answer alike for these
names plan it alike, whatever other columns they have and wherever their columns stand: nodes for
nodes the plans are the same, down to the two sources that they were planned over.  Schemas answer
alike when columns are put at the end, when columns that the query does not mention are dropped, and
when columns with names of their own are put in another order.

Two schemas that answer alike may still complain in different words, for a complaint lists all names
of the schema.  So what is carried over from one to the other is success.
-/
import SelectPlanner.Proofs.Outcome
import SelectPlanner.Proofs.OutputSchema
import Mathlib.Data.List.Find
import Mathlib.Data.List.Nodup

namespace SelectPlanner

/-! ### Schemas that answer alike -/

namespace Schema

/-- These names denote columns of the same type in both schemas, or none in either. -/
def AgreeOn (names : List String) (s s' : Schema) : Prop :=
  ∀ name ∈ names, (s.field? name).map Field.dataType = (s'.field? name).map Field.dataType

variable {names names' : List String} {s s' s'' : Schema} {name : String}

theorem AgreeOn.symm (h : AgreeOn names s s') : AgreeOn names s' s :=
  fun name hname => (h name hname).symm

theorem AgreeOn.trans (h : AgreeOn names s s') (h' : AgreeOn names s' s'') :
    AgreeOn names s s'' :=
  fun name hname => (h name hname).trans (h' name hname)

theorem AgreeOn.mono (h : AgreeOn names s s') (hsub : names' ⊆ names) : AgreeOn names' s s' :=
  fun name hname => h name (hsub hname)

/-- A field has the name that it was looked up with, so fields of one type are the same. -/
theorem AgreeOn.field?_eq (h : AgreeOn names s s') (hname : name ∈ names) :
    s.field? name = s'.field? name := by
  have htype := h name hname
  cases hs : s.field? name with
  | none =>
      rw [hs] at htype
      exact (Option.map_eq_none_iff.mp htype.symm).symm
  | some field =>
      rw [hs] at htype
      obtain ⟨field', hs', hsame⟩ := Option.map_eq_some_iff.mp htype.symm
      have hfield : field'.name = field.name := by
        rw [name_of_field? hs, name_of_field? hs']
      rw [hs', show field' = field from congr (congrArg Field.mk hfield) hsame]

theorem AgreeOn.mem_fieldNames (h : AgreeOn names s s') (hname : name ∈ names)
    (hfield : name ∈ s.fieldNames) : name ∈ s'.fieldNames := by
  rw [← field?_isSome] at hfield ⊢
  rwa [← h.field?_eq hname]

theorem AgreeOn.fieldsOf_eq (h : AgreeOn names s s') : s.fieldsOf names = s'.fieldsOf names :=
  List.filterMap_congr fun _ hname => h.field?_eq hname

/-! ### What may happen to a schema -/

/-- How a schema can change without a change to what these names denote. -/
inductive Evolves (names : List String) : Schema → Schema → Prop where
  | agree {s s' : Schema} (h : AgreeOn names s s') : Evolves names s s'
  /-- Columns at the end take no name that denoted none. -/
  | append {s : Schema} (fields : List Field)
      (h : ∀ field ∈ fields, field.name ∈ names → field.name ∈ s.fieldNames) :
      Evolves names s (s.extend fields)
  | drop {s : Schema} (keep : Field → Bool)
      (h : ∀ field ∈ s.fields, field.name ∈ names → keep field = true) :
      Evolves names s ⟨s.fields.filter keep⟩
  | reorder {s s' : Schema} (distinct : s.fieldNames.Nodup) (h : s.fields.Perm s'.fields) :
      Evolves names s s'
  | trans {s s' s'' : Schema} (h : Evolves names s s') (h' : Evolves names s' s'') :
      Evolves names s s''

theorem agreeOn_extend {fields : List Field}
    (h : ∀ field ∈ fields, field.name ∈ names → field.name ∈ s.fieldNames) :
    AgreeOn names s (s.extend fields) := by
  intro name hname
  by_cases hold : name ∈ s.fieldNames
  · rw [field?_extend hold]
  · have hnew : name ∉ (s.extend fields).fieldNames := by
      rw [fieldNames_extend, List.mem_append, not_or]
      refine ⟨hold, ?_⟩
      intro hfield
      obtain ⟨field, hmem, rfl⟩ := List.mem_map.mp hfield
      exact hold (h field hmem hname)
    rw [field?_eq_none.mpr hold, field?_eq_none.mpr hnew]

theorem agreeOn_filter {keep : Field → Bool}
    (h : ∀ field ∈ s.fields, field.name ∈ names → keep field = true) :
    AgreeOn names s ⟨s.fields.filter keep⟩ := by
  intro name hname
  have hfind : (s.fields.filter keep).find? (·.name == name) = s.fields.find? (·.name == name) := by
    rw [List.find?_filter]
    refine List.find?_congr fun field hfield => ?_
    by_cases hbears : field.name = name
    · have hkeep : keep field = true := h field hfield (hbears ▸ hname)
      simp [hkeep, hbears]
    · simp [hbears]
  rw [field?, field?, hfind]

/-- A name that denotes one field only denotes it wherever it stands. -/
theorem agreeOn_perm (distinct : s.fieldNames.Nodup) (h : s.fields.Perm s'.fields) :
    AgreeOn names s s' := by
  have uniform : s'.Uniform := by
    intro f hf g hg hname
    have hsame : f = g :=
      List.inj_on_of_nodup_map distinct (h.mem_iff.mpr hf) (h.mem_iff.mpr hg) hname
    rw [hsame]
  intro name _
  cases hs : s.field? name with
  | none =>
      have hnames : name ∉ s'.fieldNames := by
        rw [fieldNames, ← (h.map Field.name).mem_iff]
        exact field?_eq_none.mp hs
      rw [field?_eq_none.mpr hnames]
  | some field =>
      have hfield := uniform_iff.mp uniform field (h.mem_iff.mp (List.mem_of_find?_eq_some hs))
      rw [name_of_field? hs] at hfield
      rw [hfield]

theorem Evolves.agreeOn (h : Evolves names s s') : AgreeOn names s s' := by
  induction h with
  | agree h => exact h
  | append fields h => exact agreeOn_extend h
  | drop keep h => exact agreeOn_filter h
  | reorder distinct h => exact agreeOn_perm distinct h
  | trans _ _ ih ih' => exact ih.trans ih'

end Schema

/-! ### Expressions -/

namespace Expr

open Schema (AgreeOn)

variable {s s' : Schema} {e : Expr} {es : List Expr}

/-- A type is found again where the columns of the expression denote the same. -/
theorem typeIn_of_agreeOn {type : DataType} (h : AgreeOn e.columns s s')
    (ht : e.typeIn s = .ok type) : e.typeIn s' = .ok type := by
  induction e generalizing type with
  | column name =>
      obtain ⟨field, hfield, rfl⟩ := map_eq_ok.mp ht
      rw [Schema.resolve_eq_ok, h.field?_eq List.mem_cons_self] at hfield
      exact map_eq_ok.mpr ⟨field, Schema.resolve_eq_ok.mpr hfield, rfl⟩
  | renamed expr name ih => exact ih h ht
  | string value | long value | double value => exact ht
  | binary op left right ihl ihr =>
      rw [typeIn] at ht
      cases hl : left.typeIn s with
      | error err =>
          rw [hl] at ht
          cases ht
      | ok leftType =>
          rw [hl] at ht
          obtain ⟨rightType, hr, rfl⟩ := map_eq_ok.mp ht
          have hl' := ihl (h.mono (List.subset_append_left _ _)) hl
          have hr' := ihr (h.mono (List.subset_append_right _ _)) hr
          rw [typeIn, hl', hr']
          rfl

theorem fieldIn_of_agreeOn {field : Field} (h : AgreeOn e.columns s s')
    (hfield : e.fieldIn s = .ok field) : e.fieldIn s' = .ok field := by
  obtain ⟨type, ht, rfl⟩ := map_eq_ok.mp hfield
  exact map_eq_ok.mpr ⟨type, typeIn_of_agreeOn h ht, rfl⟩

theorem mapM_fieldIn_of_agreeOn {fields : List Field} (h : AgreeOn (columnsOf es) s s')
    (hfields : es.mapM (fieldIn s) = .ok fields) : es.mapM (fieldIn s') = .ok fields := by
  induction es generalizing fields with
  | nil => exact hfields
  | cons e es ih =>
      obtain ⟨field, rest, hfield, hrest, rfl⟩ := mapM_cons_eq_ok.mp hfields
      rw [columnsOf, List.flatMap_cons] at h
      have hfield' := fieldIn_of_agreeOn (h.mono (List.subset_append_left _ _)) hfield
      have hrest' := ih (h.mono (List.subset_append_right _ _)) hrest
      exact mapM_cons_eq_ok.mpr ⟨field, rest, hfield', hrest', rfl⟩

end Expr

/-! ### Plans above a source -/

namespace Plan

open Schema (AgreeOn)

/-- A node without what is below it. -/
inductive Layer where
  | projection (exprs : List Expr) (schema : Schema)
  | selection (predicate : Expr)

/-- The node with this plan below it. -/
def Layer.over (input : Plan) : Layer → Plan
  | projection exprs schema => .projection input exprs schema
  | selection predicate => .selection input predicate

/-- These nodes over a source, the first of them at the root. -/
def stack (source : Plan) (layers : List Layer) : Plan :=
  layers.foldr (fun layer input => layer.over input) source

/-- Two plans put out the same fields and have the same nodes above their sources. -/
structure AlikeAbove (source source' plan plan' : Plan) : Prop where
  schema : plan.schema = plan'.schema
  layers : ∃ layers, plan = source.stack layers ∧ plan' = source'.stack layers

variable {source source' plan : Plan} {items : List Expr} {fields : List Field} {q : Expr}

theorem narrow_eq_stack : source.narrow items fields q =
    source.stack [.selection q, .projection items ⟨fields⟩] := rfl

theorem wide_eq_stack {carried : List String} : source.wide items fields q carried =
    source.stack
      [.projection ((Expr.outputNames items).map .column)
          ⟨Schema.fieldsOf ⟨fields⟩ (Expr.outputNames items)⟩,
        .selection q,
        .projection (items ++ carried.map .column) (source.wideSchema fields carried)] := rfl

theorem select_of_agreeOn (h : AgreeOn (Expr.columnsOf items) source.schema source'.schema)
    (hplan : source.select items = .ok plan) :
    ∃ plan', source'.select items = .ok plan' ∧ AlikeAbove source source' plan plan' := by
  obtain ⟨fields, hfields, rfl⟩ := map_eq_ok.mp hplan
  exact ⟨_, select_eq (Expr.mapM_fieldIn_of_agreeOn h hfields),
    ⟨rfl, [.projection items ⟨fields⟩], rfl, rfl⟩⟩

/-- Which columns are carried is a matter of the statement; only their fields are looked up. -/
theorem query_of_agreeOn (h : AgreeOn (Expr.columnsOf items) source.schema source'.schema)
    (hq : AgreeOn q.columns source.schema source'.schema)
    (hplan : source.query items q = .ok plan) :
    ∃ plan', source'.query items q = .ok plan' ∧ AlikeAbove source source' plan plan' := by
  obtain ⟨fields, hfields, hshape⟩ := query_eq_ok.mp hplan
  have hfields' := Expr.mapM_fieldIn_of_agreeOn h hfields
  rcases hshape with ⟨hnil, rfl⟩ | ⟨hne, hcarried, rfl⟩
  · exact ⟨_, query_narrow hfields' hnil, rfl, _, narrow_eq_stack, narrow_eq_stack⟩
  · have hagree : AgreeOn (q.carried (Expr.outputNames items)) source.schema source'.schema :=
      hq.mono fun name hname => (Expr.mem_carried.mp hname).1
    have hcarried' : ∀ name ∈ q.carried (Expr.outputNames items),
        name ∈ source'.schema.fieldNames := by
      intro name hname
      exact hagree.mem_fieldNames hname (hcarried name hname)
    have hwide : source.wideSchema fields (q.carried (Expr.outputNames items)) =
        source'.wideSchema fields (q.carried (Expr.outputNames items)) := by
      rw [wideSchema, wideSchema, hagree.fieldsOf_eq]
    refine ⟨_, query_wide hfields' hne hcarried', rfl, _, wide_eq_stack, ?_⟩
    rw [hwide]
    exact wide_eq_stack

end Plan

/-! ### Statements -/

/-- The names of columns in an expression as it was written.  A SELECT in the place of a value has
none, for it has no plan. -/
def Ast.columns : Ast → List String
  | identifier name => [name]
  | binary left _ right => left.columns ++ right.columns
  | renamed expr _ => expr.columns
  | string _ | long _ | double _ | select .. => []

theorem Ast.columns_of_lower {e : Ast} {x : Expr} (h : e.lower = .ok x) :
    x.columns = e.columns := by
  fun_induction Ast.lower e generalizing x with
  | case1 | case2 | case3 | case4 =>
      obtain rfl := Except.ok.inj h
      rfl
  | case5 | case6 | case9 => cases h
  | case7 left symbol right op lowered hop hl ihl ihr =>
      obtain ⟨y, hy, rfl⟩ := map_eq_ok.mp h
      rw [Expr.columns, columns, ihl hl, ihr hy]
  | case8 expr name ih =>
      obtain ⟨y, hy, rfl⟩ := map_eq_ok.mp h
      rw [Expr.columns, columns, ih hy]

theorem Ast.columnsOf_of_lower {es : List Ast} {xs : List Expr} (h : es.mapM lower = .ok xs) :
    Expr.columnsOf xs = es.flatMap columns := by
  induction es generalizing xs with
  | nil =>
      obtain rfl : [] = xs := by simpa [pure, Except.pure] using h
      rfl
  | cons e es ih =>
      obtain ⟨x, rest, hx, hrest, rfl⟩ := mapM_cons_eq_ok.mp h
      rw [List.flatMap_cons, ← columns_of_lower hx, ← ih hrest, Expr.columnsOf, List.flatMap_cons]
      rfl

namespace Select

/-- The names of columns in the SELECT list and the condition of a statement. -/
def references (s : Select) : List String :=
  s.projection.flatMap Ast.columns ++ s.selection.elim [] Ast.columns

variable {s : Select} {tables tables' : Tables} {name : String} {source source' plan plan' : Plan}

theorem plan_of_agreeOn (hsource : tables[s.table]? = some source)
    (hsource' : tables'[name]? = some source')
    (h : Schema.AgreeOn s.references source.schema source'.schema)
    (hplan : s.plan tables = .ok plan) :
    ∃ plan', { s with table := name }.plan tables' = .ok plan' ∧
      Plan.AlikeAbove source source' plan plan' := by
  obtain ⟨found, items, hfound, hitems, hshape⟩ := plan_eq_ok.mp hplan
  obtain rfl : source = found := Option.some.inj (hsource.symm.trans (Tables.find_eq_ok.mp hfound))
  have hfind' := Tables.find_eq_ok.mpr hsource'
  have hlist : Schema.AgreeOn (Expr.columnsOf items) source.schema source'.schema := by
    rw [Ast.columnsOf_of_lower hitems]
    exact h.mono (List.subset_append_left _ _)
  rcases hshape with ⟨hnone, hselect⟩ | ⟨c, q, hc, hq, hquery⟩
  · obtain ⟨plan', hplan', halike⟩ := Plan.select_of_agreeOn hlist hselect
    exact ⟨plan', plan_eq_ok.mpr ⟨source', items, hfind', hitems, Or.inl ⟨hnone, hplan'⟩⟩, halike⟩
  · have hcondition : Schema.AgreeOn q.columns source.schema source'.schema := by
      rw [Ast.columns_of_lower hq]
      rw [references, hc] at h
      exact h.mono (List.subset_append_right _ _)
    obtain ⟨plan', hplan', halike⟩ := Plan.query_of_agreeOn hlist hcondition hquery
    exact ⟨plan', plan_eq_ok.mpr
      ⟨source', items, hfind', hitems, Or.inr ⟨c, q, hc, hq, hplan'⟩⟩, halike⟩

/-- **A query survives what happens to other columns.**  It is planned over one of two such tables
exactly when it is planned over the other, and then into the same nodes above them. -/
theorem plan_of_evolves (hsource : tables[s.table]? = some source)
    (hsource' : tables'[name]? = some source')
    (h : Schema.Evolves s.references source.schema source'.schema) :
    ((∃ plan, s.plan tables = .ok plan) ↔
        ∃ plan', { s with table := name }.plan tables' = .ok plan') ∧
      ∀ plan plan', s.plan tables = .ok plan →
        { s with table := name }.plan tables' = .ok plan' →
          Plan.AlikeAbove source source' plan plan' := by
  refine ⟨⟨?_, ?_⟩, ?_⟩
  · intro hplan
    obtain ⟨plan, hplan⟩ := hplan
    obtain ⟨plan', hplan', -⟩ := plan_of_agreeOn hsource hsource' h.agreeOn hplan
    exact ⟨plan', hplan'⟩
  · intro hplan'
    obtain ⟨plan', hplan'⟩ := hplan'
    obtain ⟨plan, hplan, -⟩ := plan_of_agreeOn (s := { s with table := name }) hsource' hsource
      h.agreeOn.symm hplan'
    exact ⟨plan, hplan⟩
  · intro plan plan' hplan hplan'
    obtain ⟨found, hfound, halike⟩ := plan_of_agreeOn hsource hsource' h.agreeOn hplan
    obtain rfl := Except.ok.inj (hplan'.symm.trans hfound)
    exact halike

/-- A table. -/
def roster : Schema := ⟨[⟨"name", .string⟩, ⟨"active", .boolean⟩, ⟨"age", .long⟩]⟩

/-- The table later: a column was dropped, the others were put in another order, and one was added
at the end. -/
def laterRoster : Schema := ⟨[⟨"age", .long⟩, ⟨"name", .string⟩, ⟨"height", .double⟩]⟩

/-- `SELECT name AS who FROM roster WHERE who != 'Ada' AND age > 17`. -/
def grownUps : Select :=
  ⟨[.renamed (.identifier "name") "who"],
    some (.binary (.binary (.identifier "who") "!=" (.string "Ada")) "AND"
      (.binary (.identifier "age") ">" (.long 17))), "roster"⟩

/-- The table under its name. -/
def rosterTables : Tables := (∅ : Tables).insert "roster" (.scan "roster" roster)

/-- The later table under another name. -/
def laterTables : Tables := (∅ : Tables).insert "people" (.scan "people" laterRoster)

theorem evolves_roster : Schema.Evolves grownUps.references roster laterRoster := by
  have hdrop : Schema.Evolves grownUps.references roster ⟨[⟨"name", .string⟩, ⟨"age", .long⟩]⟩ :=
    .drop (fun field => field.dataType != .boolean) (by decide)
  have hreorder : Schema.Evolves grownUps.references ⟨[⟨"name", .string⟩, ⟨"age", .long⟩]⟩
      ⟨[⟨"age", .long⟩, ⟨"name", .string⟩]⟩ :=
    .reorder (by decide) (by decide)
  have happend : Schema.Evolves grownUps.references ⟨[⟨"age", .long⟩, ⟨"name", .string⟩]⟩
      laterRoster :=
    .append [⟨"height", .double⟩] (by decide)
  exact .trans hdrop (.trans hreorder happend)

/-- Planned over the later table, a query with a carried column has the nodes that it had. -/
theorem plan_of_evolves_roster :
    ∃ plan plan', grownUps.plan rosterTables = .ok plan ∧
      { grownUps with table := "people" }.plan laterTables = .ok plan' ∧
      Plan.AlikeAbove (.scan "roster" roster) (.scan "people" laterRoster) plan plan' := by
  have hroster : rosterTables[grownUps.table]? = some (.scan "roster" roster) := rfl
  have hlater : laterTables["people"]? = some (.scan "people" laterRoster) := rfl
  obtain ⟨plan, hplan⟩ : ∃ plan, grownUps.plan rosterTables = .ok plan := ⟨_, rfl⟩
  obtain ⟨hiff, halike⟩ := plan_of_evolves hroster hlater evolves_roster
  obtain ⟨plan', hplan'⟩ := hiff.mp ⟨plan, hplan⟩
  exact ⟨plan, plan', hplan, hplan', halike plan plan' hplan hplan'⟩

end Select

end SelectPlanner
