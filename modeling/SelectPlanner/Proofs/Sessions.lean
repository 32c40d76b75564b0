/-
Whatever a session makes is well resolved.

A node of a plan looks up names in the schema of the node below it.  Plans that were put together by
hand need not find them there, but a session has no such plans: it opens contexts, and what it
makes, it makes by scanning, selecting and filtering, by registering plans and by planning queries
over what is registered.  So its plans grow only by `select` and `filter`, by which nothing is added
that does not resolve, and a query of a registered plan puts its nodes on top of nodes that resolved
before.  Which plans are registered when does not matter, only that all of them were made so.
-/
import SelectPlanner.Proofs.Outcome
import Mathlib.Logic.Relation

namespace SelectPlanner

theorem forall₂_of_mapM {ε α β : Type} {f : α → Except ε β} {as : List α} {bs : List β}
    (h : as.mapM f = .ok bs) : List.Forall₂ (fun a b => f a = .ok b) as bs := by
  induction as generalizing bs with
  | nil =>
      obtain rfl : [] = bs := by simpa [pure, Except.pure] using h
      exact .nil
  | cons a as ih =>
      obtain ⟨b, rest, hb, hrest, rfl⟩ := mapM_cons_eq_ok.mp h
      exact .cons hb (ih hrest)

namespace Plan

/-! ### Nodes that go together with what is below them -/

/-- A node resolves in the schema of the node below it. -/
inductive NodeResolved : Plan → Prop where
  | scan (table : String) (schema : Schema) : NodeResolved (.scan table schema)
  /-- The fields are those of the expressions, as many and in order. -/
  | projection {input : Plan} {exprs : List Expr} {schema : Schema}
      (fields : List.Forall₂ (fun e field => e.fieldIn input.schema = .ok field) exprs
        schema.fields)
      (columns : ∀ e ∈ exprs, ∀ name ∈ e.columns, name ∈ input.schema.fieldNames) :
      NodeResolved (.projection input exprs schema)
  /-- The condition has a field, and the schema goes through. -/
  | selection {input : Plan} {predicate : Expr}
      (field : ∃ field, predicate.fieldIn input.schema = .ok field)
      (schema : (selection input predicate).schema = input.schema)
      (columns : ∀ name ∈ predicate.columns, name ∈ input.schema.fieldNames) :
      NodeResolved (.selection input predicate)

/-- Every node of a plan resolves. -/
def WellResolved (p : Plan) : Prop := ∀ node ∈ p.nodes, node.NodeResolved

variable {p plan : Plan} {exprs items : List Expr} {predicate : Expr}

theorem wellResolved_scan (table : String) (schema : Schema) : (scan table schema).WellResolved :=
  List.forall_mem_singleton.mpr (.scan table schema)

theorem WellResolved.select (hp : p.WellResolved) (h : p.select exprs = .ok plan) :
    plan.WellResolved := by
  obtain ⟨fields, hfields, rfl⟩ := map_eq_ok.mp h
  refine List.forall_mem_cons.mpr ⟨.projection (forall₂_of_mapM hfields) ?_, hp⟩
  intro e he name hname
  exact Expr.exists_mapM_fieldIn.mp ⟨fields, hfields⟩ name (Expr.mem_columnsOf.mpr ⟨e, he, hname⟩)

theorem WellResolved.filter (hp : p.WellResolved) (h : p.filter predicate = .ok plan) :
    plan.WellResolved := by
  obtain ⟨field, hfield, rfl⟩ := map_eq_ok.mp h
  have hcolumns := Expr.exists_fieldIn.mp ⟨field, hfield⟩
  exact List.forall_mem_cons.mpr ⟨.selection ⟨field, hfield⟩ rfl hcolumns, hp⟩

/-- A query is up to three nodes, each of them made by `select` or `filter`. -/
theorem WellResolved.query (hp : p.WellResolved) (h : p.query items predicate = .ok plan) :
    plan.WellResolved := by
  obtain ⟨fields, -, h⟩ := bind_eq_ok.mp h
  dsimp only at h
  split at h
  · obtain ⟨selected, hselected, h⟩ := bind_eq_ok.mp h
    exact (hp.select hselected).filter h
  · obtain ⟨wide, hwide, h⟩ := bind_eq_ok.mp h
    obtain ⟨filtered, hfiltered, h⟩ := bind_eq_ok.mp h
    exact ((hp.select hwide).filter hfiltered).select h

end Plan

/-! ### Contexts -/

/-- Every registered plan is well resolved. -/
def Tables.WellResolved (tables : Tables) : Prop :=
  ∀ (name : String) (plan : Plan), tables[name]? = some plan → plan.WellResolved

theorem Tables.wellResolved_empty : Tables.WellResolved ∅ := by
  intro name plan h
  rw [Std.ExtTreeMap.getElem?_empty] at h
  cases h

theorem Tables.WellResolved.find {tables : Tables} {name : String} {plan : Plan}
    (h : tables.WellResolved) (hplan : tables.find name = .ok plan) : plan.WellResolved :=
  h name plan (Tables.find_eq_ok.mp hplan)

theorem Select.wellResolved_plan {s : Select} {tables : Tables} {plan : Plan}
    (h : tables.WellResolved) (hplan : s.plan tables = .ok plan) : plan.WellResolved := by
  obtain ⟨source, items, hsource, -, ⟨-, hselect⟩ | ⟨c, q, -, -, hquery⟩⟩ :=
    Select.plan_eq_ok.mp hplan
  · exact (h.find hsource).select hselect
  · exact (h.find hsource).query hquery

namespace Context

variable {c : Context} {name text : String} {plan : Plan}

theorem wellResolved_query (h : c.tables.WellResolved) (hplan : c.query text = .ok plan) :
    plan.WellResolved := by
  obtain ⟨s, -, hs⟩ := bind_eq_ok.mp hplan
  exact Select.wellResolved_plan h hs

/-- What is registered anew is well resolved, and so is what was registered before. -/
theorem wellResolved_register (h : c.tables.WellResolved) (hplan : plan.WellResolved) :
    (c.register name plan).tables.WellResolved := by
  intro other found hfound
  rw [register, Std.ExtTreeMap.getElem?_insert] at hfound
  split at hfound
  · obtain rfl := Option.some.inj hfound
    exact hplan
  · exact h other found hfound

end Context

/-! ### Sessions -/

/-- The contexts that were opened, as they are now, and the plans that were made. -/
structure Session where
  contexts : List Context
  plans : List Plan

namespace Session

/-- A session with one more plan. -/
def keep (s : Session) (plan : Plan) : Session := { s with plans := plan :: s.plans }

/-- What a session can do.  What fails leaves it as it was, and is no step. -/
inductive Step : Session → Session → Prop where
  | openContext {s : Session} (config : Config) :
      Step s { s with contexts := { config } :: s.contexts }
  | scan {s : Session} (table : String) (schema : Schema) : Step s (s.keep (.scan table schema))
  | select {s : Session} {p plan : Plan} {exprs : List Expr} (hp : p ∈ s.plans)
      (h : p.select exprs = .ok plan) : Step s (s.keep plan)
  | filter {s : Session} {p plan : Plan} {predicate : Expr} (hp : p ∈ s.plans)
      (h : p.filter predicate = .ok plan) : Step s (s.keep plan)
  | register {before after : List Context} {c : Context} {plans : List Plan} {p : Plan}
      (name : String) (hp : p ∈ plans) :
      Step ⟨before ++ c :: after, plans⟩ ⟨before ++ c.register name p :: after, plans⟩
  | registerTable {before after : List Context} {c : Context} {plans : List Plan}
      (name : String) (schema : Schema) :
      Step ⟨before ++ c :: after, plans⟩ ⟨before ++ c.registerTable name schema :: after, plans⟩
  | table {s : Session} {c : Context} {name : String} {plan : Plan} (hc : c ∈ s.contexts)
      (h : c.table name = .ok plan) : Step s (s.keep plan)
  | query {s : Session} {c : Context} {text : String} {plan : Plan} (hc : c ∈ s.contexts)
      (h : c.query text = .ok plan) : Step s (s.keep plan)

/-- A session before anything is done. -/
def start : Session := ⟨[], []⟩

/-- Any number of steps, one after the other. -/
def Reaches : Session → Session → Prop := Relation.ReflTransGen Step

/-- All that a session has made is well resolved. -/
structure WellResolved (s : Session) : Prop where
  tables : ∀ c ∈ s.contexts, c.tables.WellResolved
  plans : ∀ p ∈ s.plans, p.WellResolved

variable {s s' : Session}

theorem WellResolved.keep (h : s.WellResolved) {plan : Plan} (hplan : plan.WellResolved) :
    (s.keep plan).WellResolved :=
  ⟨h.tables, List.forall_mem_cons.mpr ⟨hplan, h.plans⟩⟩

theorem WellResolved.register {before after : List Context} {c : Context} {plans : List Plan}
    (h : WellResolved ⟨before ++ c :: after, plans⟩) (name : String) {plan : Plan}
    (hplan : plan.WellResolved) :
    WellResolved ⟨before ++ c.register name plan :: after, plans⟩ := by
  obtain ⟨hbefore, hc, hafter⟩ := by
    simpa only [List.forall_mem_append, List.forall_mem_cons] using h.tables
  refine ⟨?_, h.plans⟩
  simp only [List.forall_mem_append, List.forall_mem_cons]
  exact ⟨hbefore, Context.wellResolved_register hc hplan, hafter⟩

/-- One step keeps everything well resolved. -/
theorem WellResolved.step (h : s.WellResolved) (hstep : Step s s') : s'.WellResolved := by
  cases hstep with
  | openContext config =>
      exact ⟨List.forall_mem_cons.mpr ⟨Tables.wellResolved_empty, h.tables⟩, h.plans⟩
  | scan table schema => exact h.keep (Plan.wellResolved_scan table schema)
  | select hp hplan => exact h.keep ((h.plans _ hp).select hplan)
  | filter hp hplan => exact h.keep ((h.plans _ hp).filter hplan)
  | register name hp => exact h.register name (h.plans _ hp)
  | registerTable name schema => exact h.register name (Plan.wellResolved_scan name schema)
  | table hc hplan => exact h.keep ((h.tables _ hc).find hplan)
  | query hc hplan => exact h.keep (Context.wellResolved_query (h.tables _ hc) hplan)

/-- **Every plan that a session makes or registers is well resolved.** -/
theorem wellResolved_of_reaches (h : start.Reaches s) : s.WellResolved := by
  induction h with
  | refl => exact ⟨nofun, nofun⟩
  | tail _ hstep ih => exact ih.step hstep

/-- A table. -/
def people : Schema := ⟨[⟨"name", .string⟩, ⟨"age", .long⟩]⟩

/-- A query over the table that carries a column. -/
def adults : Plan :=
  .projection
    (.selection
      (.projection (.scan "people" people) [.renamed (.column "name") "who", .column "age"]
        ⟨[⟨"who", .string⟩, ⟨"age", .long⟩]⟩)
      (.binary (.comparison .gtEq) (.column "age") (.long 18)))
    [.column "who"] ⟨[⟨"who", .string⟩]⟩

/-- A query over the query. -/
def others : Plan :=
  .selection (.projection adults [.column "who"] ⟨[⟨"who", .string⟩]⟩)
    (.binary (.comparison .neq) (.column "who") (.string "Ada"))

/-- A context with the table. -/
def withPeople : Context := Context.registerTable { config := {} } "people" people

/-- The same context with the first query as another table. -/
def withAdults : Context := withPeople.register "adults" adults

/-- A query is registered and queried again. -/
theorem wellResolved_of_reaches_view :
    start.Reaches ⟨[withAdults], [others, adults]⟩ ∧
      WellResolved ⟨[withAdults], [others, adults]⟩ := by
  have hadults : withPeople.query "select name as who from people where age >= 18" =
      .ok adults := by
    decide +kernel
  have hothers : withAdults.query "select who from adults where who != 'Ada'" = .ok others := by
    decide +kernel
  have hopen : start.Reaches ⟨[{ config := {} }], []⟩ := .single (.openContext {})
  have htable : start.Reaches ⟨[withPeople], []⟩ :=
    hopen.tail (@Step.registerTable [] [] _ [] "people" people)
  have hfirst : start.Reaches ⟨[withPeople], [adults]⟩ :=
    htable.tail (.query List.mem_cons_self hadults)
  have hview : start.Reaches ⟨[withAdults], [adults]⟩ :=
    hfirst.tail (@Step.register [] [] _ [adults] _ "adults" List.mem_cons_self)
  have hsecond : start.Reaches ⟨[withAdults], [others, adults]⟩ :=
    hview.tail (.query List.mem_cons_self hothers)
  exact ⟨hsecond, wellResolved_of_reaches hsecond⟩

end Session

end SelectPlanner
