/-
Contexts: a configuration and the tables that queries can see.

Registering a plan under a name replaces what was there; plans that were made from it before stay
as they are.  A query is a text, and is planned over the tables of the moment.
-/
import SelectPlanner.Config
import SelectPlanner.Planning
import SelectPlanner.Statement

namespace SelectPlanner

/-- A configuration and registered tables. -/
structure Context where
  /-- What the execution of plans is told. -/
  config : Config := {}
  /-- The plans that queries can name. -/
  tables : Tables := ∅

namespace Context

/-- Registers a plan under a name. -/
def register (c : Context) (name : String) (plan : Plan) : Context :=
  { c with tables := c.tables.insert name plan }

/-- Registers a table of this schema. -/
def registerTable (c : Context) (name : String) (schema : Schema) : Context :=
  c.register name (.scan name schema)

/-- The plan that is registered under a name. -/
def table (c : Context) (name : String) : Except Error Plan := c.tables.find name

/-- The plan of a query. -/
def query (c : Context) (text : String) : Except Error Plan := do
  (← Select.ofText text).plan c.tables

end Context

end SelectPlanner
