/-
A query sees one table, as it was registered last.

A context changes by registering alone, and an action registers at most one plan: a plan that is
given, a scan, or what a query of the context is planned into, if it is.  So what a name stands for
after a run is settled by the last action of the run that registered under it, at the context which
the run had reached by then, and names do not get in one another's way.

Planning looks up one name, that of the table in the query, whether it succeeds or not.  Two contexts
in which this name stands for the same, or for nothing, answer the query alike, however they came
about and whatever else they hold.  A registered plan holds all that was looked up when it was made,
so a view stays what it was when the table that it was planned over is registered again.
-/
import SelectPlanner.Proofs.Sessions

namespace SelectPlanner

/-- What can be done to a context. -/
inductive Action where
  /-- Register a plan. -/
  | register (name : String) (plan : Plan)
  /-- Register a table of this schema. -/
  | registerTable (name : String) (schema : Schema)
  /-- Plan a query, and register its plan. -/
  | registerQuery (name text : String)

/-- The name that an action is to register under. -/
def Action.name : Action → String
  | register name _ | registerTable name _ | registerQuery name _ => name

/-- An action, done to this context, registers this plan under this name. -/
inductive Action.Registers (c : Context) : Action → String → Plan → Prop where
  | register (name : String) (plan : Plan) : Registers c (.register name plan) name plan
  | registerTable (name : String) (schema : Schema) :
      Registers c (.registerTable name schema) name (.scan name schema)
  /-- A query that is not planned registers nothing. -/
  | registerQuery {name text : String} {plan : Plan} (h : c.query text = .ok plan) :
      Registers c (.registerQuery name text) name plan

/-- An action registers at most one plan, and under its own name. -/
theorem Action.Registers.unique {c : Context} {action : Action} {name name' : String}
    {plan plan' : Plan} (h : action.Registers c name plan) (h' : action.Registers c name' plan') :
    name = name' ∧ plan = plan' := by
  cases h with
  | register | registerTable =>
      cases h'
      exact ⟨rfl, rfl⟩
  | registerQuery h =>
      cases h' with
      | registerQuery h' => exact ⟨rfl, Except.ok.inj (h.symm.trans h')⟩

theorem Action.Registers.name_eq {c : Context} {action : Action} {name : String} {plan : Plan}
    (h : action.Registers c name plan) : action.name = name := by
  cases h <;> rfl

namespace Context

/-- A context with nothing registered. -/
def opened (config : Config) : Context := { config }

/-- The context after an action.  What fails leaves it as it was. -/
def perform (c : Context) : Action → Context
  | .register name plan => c.register name plan
  | .registerTable name schema => c.registerTable name schema
  | .registerQuery name text =>
    match c.query text with
    | .ok plan => c.register name plan
    | .error _ => c

/-- The context after actions, one after the other. -/
def run (c : Context) (actions : List Action) : Context := actions.foldl perform c

/-- No action of a run from this context registers under this name. -/
def LeavesAlone (c : Context) (actions : List Action) (name : String) : Prop :=
  ∀ before action after, actions = before ++ action :: after →
    ∀ plan, ¬ action.Registers (c.run before) name plan

/-- The last action of a run from this context to register under this name registers this plan. -/
def Latest (c : Context) (actions : List Action) (name : String) (plan : Plan) : Prop :=
  ∃ before action after, actions = before ++ action :: after ∧
    action.Registers (c.run before) name plan ∧
    LeavesAlone (c.run (before ++ [action])) after name

variable {c c' : Context} {action : Action} {actions : List Action} {name other : String}
  {plan : Plan}

/-! ### One action -/

theorem tables_register_self (c : Context) (name : String) (plan : Plan) :
    (c.register name plan).tables[name]? = some plan :=
  Std.ExtTreeMap.getElem?_insert_self

theorem tables_register_of_ne (c : Context) (plan : Plan) (h : other ≠ name) :
    (c.register other plan).tables[name]? = c.tables[name]? := by
  rw [register, Std.ExtTreeMap.getElem?_insert, if_neg]
  simpa using h

theorem perform_of_registers (h : action.Registers c name plan) :
    c.perform action = c.register name plan := by
  cases h with
  | register | registerTable => rfl
  | registerQuery h => rw [perform, h]

theorem perform_of_fails (h : ∀ name plan, ¬ action.Registers c name plan) :
    c.perform action = c := by
  cases action with
  | register name plan => exact absurd (.register name plan) (h name plan)
  | registerTable name schema => exact absurd (.registerTable name schema) (h name _)
  | registerQuery name text =>
      cases hquery : c.query text with
      | ok plan => exact absurd (.registerQuery hquery) (h name plan)
      | error err => rw [perform, hquery]

/-- What a name stands for after an action is what the action registers under it, or else what it
stood for before. -/
theorem tables_perform :
    (c.perform action).tables[name]? = some plan ↔
      action.Registers c name plan ∨
        (∀ other, ¬ action.Registers c name other) ∧ c.tables[name]? = some plan := by
  -- An action registers one plan, or it leaves the context as it was.
  by_cases hregisters : ∃ other made, action.Registers c other made
  · obtain ⟨other, made, h⟩ := hregisters
    rw [perform_of_registers h]
    by_cases hname : other = name
    · subst hname
      rw [tables_register_self]
      refine ⟨fun hplan => ?_, fun hplan => ?_⟩
      · obtain rfl := Option.some.inj hplan
        exact Or.inl h
      · rcases hplan with hplan | ⟨hnone, -⟩
        · rw [(h.unique hplan).2]
        · exact absurd h (hnone made)
    · have hnone : ∀ made', ¬ action.Registers c name made' :=
        fun made' h' => hname (h.unique h').1
      rw [tables_register_of_ne c made hname]
      simp [hnone]
  · have hnone : ∀ other made, ¬ action.Registers c other made := by simpa using hregisters
    rw [perform_of_fails hnone]
    simp [hnone]

/-! ### A run -/

theorem run_append (c : Context) (before after : List Action) :
    c.run (before ++ after) = (c.run before).run after :=
  List.foldl_append

theorem leavesAlone_nil : LeavesAlone c [] name := by
  intro before action after split
  simp at split

theorem leavesAlone_cons :
    LeavesAlone c (action :: actions) name ↔
      (∀ plan, ¬ action.Registers c name plan) ∧ LeavesAlone (c.perform action) actions name := by
  refine ⟨fun h => ⟨h [] action actions rfl, fun before a after split => ?_⟩, fun h => ?_⟩
  · exact h (action :: before) a after (by rw [split]; rfl)
  · obtain ⟨hfirst, hrest⟩ := h
    intro before a after split
    cases before with
    | nil =>
        obtain ⟨rfl, rfl⟩ := List.cons.inj split
        exact hfirst
    | cons b before =>
        obtain ⟨rfl, rfl⟩ := List.cons.inj split
        exact hrest before a after rfl

theorem latest_cons :
    Latest c (action :: actions) name plan ↔
      Latest (c.perform action) actions name plan ∨
        action.Registers c name plan ∧ LeavesAlone (c.perform action) actions name := by
  refine ⟨fun h => ?_, fun h => ?_⟩
  · obtain ⟨before, a, after, split, hregisters, halone⟩ := h
    cases before with
    | nil =>
        obtain ⟨rfl, rfl⟩ := List.cons.inj split
        exact Or.inr ⟨hregisters, halone⟩
    | cons b before =>
        obtain ⟨rfl, rfl⟩ := List.cons.inj split
        exact Or.inl ⟨before, a, after, rfl, hregisters, halone⟩
  · rcases h with ⟨before, a, after, rfl, hregisters, halone⟩ | ⟨hregisters, halone⟩
    · exact ⟨action :: before, a, after, rfl, hregisters, halone⟩
    · exact ⟨[], action, actions, rfl, hregisters, halone⟩

/-- After a run a name stands for what was registered under it last, or else for what it stood for
before the run. -/
theorem tables_run :
    (c.run actions).tables[name]? = some plan ↔
      Latest c actions name plan ∨ LeavesAlone c actions name ∧ c.tables[name]? = some plan := by
  induction actions generalizing c with
  | nil => simp [Latest, leavesAlone_nil, run]
  | cons action actions ih =>
      rw [show c.run (action :: actions) = (c.perform action).run actions from rfl, ih,
        tables_perform, latest_cons, leavesAlone_cons]
      tauto

/-- Either something was registered under a name last, or nothing was. -/
theorem latest_or_leavesAlone (c : Context) (actions : List Action) (name : String) :
    (∃ plan, Latest c actions name plan) ∨ LeavesAlone c actions name := by
  induction actions generalizing c with
  | nil => exact Or.inr leavesAlone_nil
  | cons action actions ih =>
      simp only [latest_cons, leavesAlone_cons]
      rcases ih (c.perform action) with ⟨plan, hplan⟩ | halone
      · exact Or.inl ⟨plan, Or.inl hplan⟩
      · by_cases hregisters : ∃ plan, action.Registers c name plan
        · obtain ⟨plan, hplan⟩ := hregisters
          exact Or.inl ⟨plan, Or.inr ⟨hplan, halone⟩⟩
        · exact Or.inr ⟨by simpa using hregisters, halone⟩

theorem Latest.not_leavesAlone (h : Latest c actions name plan) : ¬ LeavesAlone c actions name := by
  obtain ⟨before, action, after, split, hregisters, -⟩ := h
  intro halone
  exact halone before action after split plan hregisters

/-- A name stands for nothing after a run when nothing was registered, then or before. -/
theorem tables_run_eq_none :
    (c.run actions).tables[name]? = none ↔
      LeavesAlone c actions name ∧ c.tables[name]? = none := by
  rw [Option.eq_none_iff_forall_ne_some, Option.eq_none_iff_forall_ne_some]
  simp only [ne_eq, tables_run, not_or, not_and]
  refine ⟨fun h => ?_,
    fun h plan => ⟨fun hlatest => hlatest.not_leavesAlone h.1, fun _ => h.2 plan⟩⟩
  rcases latest_or_leavesAlone c actions name with ⟨plan, hplan⟩ | halone
  · exact absurd hplan (h plan).1
  · exact ⟨halone, fun plan => (h plan).2 halone⟩

/-- Actions under other names leave a name alone. -/
theorem leavesAlone_of_names (h : ∀ action ∈ actions, action.name ≠ name) :
    LeavesAlone c actions name := by
  intro before action after split plan hregisters
  exact h action (by simp [split]) hregisters.name_eq

/-! ### Queries -/

/-- Planning a statement looks up its table and nothing else. -/
theorem plan_eq_of_find {s : Select} {tables tables' : Tables}
    (h : tables.find s.table = tables'.find s.table) : s.plan tables = s.plan tables' := by
  rw [Select.plan, Select.plan, h]

/-- Two contexts answer a query alike when its table is the same in both, or in neither. -/
theorem query_eq_of_table {text : String}
    (h : ∀ s, Select.ofText text = .ok s → c.table s.table = c'.table s.table) :
    c.query text = c'.query text := by
  rw [query, query]
  cases hs : Select.ofText text with
  | error err => rfl
  | ok s => exact plan_eq_of_find (h s hs)

/-- What is registered under a name stays there until something else is. -/
theorem table_run_register (h : LeavesAlone (c.register name plan) actions name) :
    ((c.register name plan).run actions).table name = .ok plan :=
  Tables.find_eq_ok.mpr (tables_run.mpr (Or.inr ⟨h, tables_register_self c name plan⟩))

/-- **A query sees only the table that it names, as it was registered last.**  After a run a name
stands for the plan that was last registered under it, or for nothing.  Two contexts in which the
table of a query stands for the same, or for nothing, give the same plan or the same error.  And a
plan that is registered, such as that of a query, stays as it is while nothing is registered in its
place, and so does every query of it: registering again the table that it was made from, under
another name than its own, changes neither. -/
theorem query_sees_table :
    (∀ config actions name,
      (∀ plan, ((opened config).run actions).table name = .ok plan ↔
        Latest (opened config) actions name plan) ∧
      ∀ err, ((opened config).run actions).table name = .error err ↔
        LeavesAlone (opened config) actions name ∧ err = .unknownTable name) ∧
    (∀ config config' actions actions' text,
      (∀ s, Select.ofText text = .ok s → ((opened config).run actions).table s.table =
        ((opened config').run actions').table s.table) →
      ((opened config).run actions).query text = ((opened config').run actions').query text) ∧
    ∀ (c : Context) (view : String) (plan : Plan) (later : List Action),
      LeavesAlone (c.register view plan) later view →
        ((c.register view plan).run later).table view = .ok plan ∧
        ∀ s text, Select.ofText text = .ok s → s.table = view →
          ((c.register view plan).run later).query text = (c.register view plan).query text := by
  refine ⟨fun config actions name => ⟨fun plan => ?_, fun err => ?_⟩,
    fun config config' actions actions' text => query_eq_of_table,
    fun c view plan later halone => ⟨table_run_register halone, ?_⟩⟩
  · rw [table, Tables.find_eq_ok, tables_run]
    simp [opened]
  · rw [table, Tables.find_eq_error, tables_run_eq_none]
    simp [opened]
  · intro s text hs hview
    refine query_eq_of_table fun s' hs' => ?_
    obtain rfl := Except.ok.inj (hs.symm.trans hs')
    rw [hview, table_run_register halone]
    exact (table_run_register leavesAlone_nil).symm

/-- A table is registered again, without the column that a view was planned with, and then as a
query of that view. -/
def peopleAgain : List Action :=
  [.registerTable "people" ⟨[⟨"name", .string⟩]⟩, .registerQuery "people" "select who from adults"]

/-- The view stays, and so does a query of it. -/
theorem query_sees_table_view :
    Session.withPeople.query "select name as who from people where age >= 18" =
        .ok Session.adults ∧
      LeavesAlone Session.withAdults peopleAgain "adults" ∧
      (Session.withAdults.run peopleAgain).table "adults" = .ok Session.adults ∧
      (Session.withAdults.run peopleAgain).query "select who from adults where who != 'Ada'" =
        .ok Session.others := by
  have halone : LeavesAlone Session.withAdults peopleAgain "adults" :=
    leavesAlone_of_names (by decide)
  have hs : Select.ofText "select who from adults where who != 'Ada'" =
      .ok ⟨[.identifier "who"], some (.binary (.identifier "who") "!=" (.string "Ada")),
        "adults"⟩ := by
    decide +kernel
  obtain ⟨htable, hquery⟩ :=
    query_sees_table.2.2 Session.withPeople "adults" Session.adults peopleAgain halone
  refine ⟨by decide +kernel, halone, htable, (hquery _ _ hs rfl).trans ?_⟩
  decide +kernel

end Context

end SelectPlanner
