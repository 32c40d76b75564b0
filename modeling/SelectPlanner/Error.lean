/-
What can go wrong between the text of a query and its plan.

There is one type of error for the whole way, with a constructor for each cause and the words that
a message needs.  The causes fall into phases, so that a caller can tell a text that is no query
from a query that has no plan and from a name that does not resolve.
-/
import SelectPlanner.Text.Quoted
import SelectPlanner.Numeral

namespace SelectPlanner

/-- A cause of failure. -/
inductive Error where
  /-- No lexeme starts at this byte; the fragment is what was looked at. -/
  | unrecognised (position : Nat) (fragment : String)
  /-- A literal token does not denote a value of its kind. -/
  | invalidLiteral (kind text : String)
  /-- A token that cannot stand where it does. -/
  | unexpectedToken (token context : String)
  /-- The input ended too early. -/
  | unexpectedEnd (expectation : String)
  /-- Another keyword had to stand here. -/
  | missingKeyword (expected found : String)
  /-- An identifier had to stand here. -/
  | missingIdentifier (found : String)
  /-- A statement that is no SELECT. -/
  | notAQuery (statement : String)
  /-- No table is registered under this name. -/
  | unknownTable (name : String)
  /-- A binary operator that plans do not have. -/
  | unsupportedOperator (op : String)
  /-- An expression that plans do not have. -/
  | unsupportedExpression (text : String)
  /-- A column that the schema lacks, with the names that it has. -/
  | unknownColumn (name : String) (available : List String)
  /-- The columns of a batch do not fit its schema or one another. -/
  | invalidBatch (fault : String)
  /-- A configuration that cannot be used. -/
  | configuration (fault : String)
  /-- Running a plan failed. -/
  | execution (fault : String)
  deriving DecidableEq, Inhabited, Repr

namespace Error

/-- The words for an error. -/
def message : Error → String
  | unrecognised position fragment =>
    "Lex error at offset " ++ Numeral.render position ++ ": unrecognised input '" ++ fragment ++ "'"
  | invalidLiteral kind text => "Invalid " ++ kind ++ " literal: " ++ text
  | unexpectedToken token context => "Unexpected " ++ token ++ " " ++ context
  | unexpectedEnd expectation => "Unexpected end of input: " ++ expectation
  | missingKeyword expected found => "Expected keyword " ++ expected ++ ", found " ++ found
  | missingIdentifier found => "Expected identifier, found " ++ found
  | notAQuery statement => "Statement is not a query: " ++ statement
  | unknownTable name => "No table named '" ++ name ++ "'"
  | unsupportedOperator op => "Unsupported binary operator: " ++ op
  | unsupportedExpression text => "Unsupported expression: " ++ text
  | unknownColumn name available =>
    "No column named '" ++ name ++ "' in schema " ++ Text.quotedList available
  | invalidBatch fault => "Invalid record batch: " ++ fault
  | configuration fault => "Configuration error: " ++ fault
  | execution fault => "Execution error: " ++ fault

/-- The part of the way on which an error arises. -/
inductive Phase where
  /-- Taking a text apart into tokens and tokens into a statement. -/
  | parsing
  /-- Turning a statement into a plan. -/
  | planning
  /-- Looking up a column in a schema. -/
  | resolution
  /-- Everything beside queries. -/
  | other
  deriving DecidableEq, Repr

/-- The phase that an error belongs to. -/
def phase : Error → Phase
  | unrecognised .. | invalidLiteral .. | unexpectedToken .. | unexpectedEnd _ | missingKeyword ..
  | missingIdentifier _ | notAQuery _ => .parsing
  | unknownTable _ | unsupportedOperator _ | unsupportedExpression _ => .planning
  | unknownColumn .. => .resolution
  | invalidBatch _ | configuration _ | execution _ => .other

end Error

end SelectPlanner
