import SelectPlanner.Ast
import SelectPlanner.Ast.Codec
import SelectPlanner.Ast.Lowering
import SelectPlanner.Ast.Parser
import SelectPlanner.Ast.Parser.Lemmas
import SelectPlanner.Batch
import SelectPlanner.Config
import SelectPlanner.Config.Codec
import SelectPlanner.Context
import SelectPlanner.Double
import SelectPlanner.Double.Decimal
import SelectPlanner.Double.Shortest
import SelectPlanner.Error
import SelectPlanner.Expr
import SelectPlanner.Expr.Codec
import SelectPlanner.Json
import SelectPlanner.Json.Number
import SelectPlanner.Json.Reader
import SelectPlanner.Json.Shape
import SelectPlanner.Numeral
import SelectPlanner.Plan
import SelectPlanner.Planning
import SelectPlanner.Proofs.Bracketing
import SelectPlanner.Proofs.Meaning
import SelectPlanner.Proofs.Outcome
import SelectPlanner.Proofs.OutputSchema
import SelectPlanner.Proofs.ParserSoundness
import SelectPlanner.Proofs.Pushdown
import SelectPlanner.Proofs.Resolution
import SelectPlanner.Reading
import SelectPlanner.Scalar
import SelectPlanner.Schema
import SelectPlanner.Schema.Codec
import SelectPlanner.Statement
import SelectPlanner.Text.Blank
import SelectPlanner.Text.Printable
import SelectPlanner.Text.Quoted
import SelectPlanner.Token
import SelectPlanner.Token.Codec
import SelectPlanner.Token.Lexeme
import SelectPlanner.Token.Sequence
import SelectPlanner.Proofs.LexemePatterns
import SelectPlanner.Proofs.LongestMatch
import SelectPlanner.Proofs.Tokenization
import SelectPlanner.Proofs.CanonicalTrees
import SelectPlanner.Proofs.ParserCompleteness
import SelectPlanner.Proofs.Acceptance
import SelectPlanner.Proofs.Spellings
import SelectPlanner.Proofs.PrintedTrees
import SelectPlanner.Proofs.Sessions
import SelectPlanner.Proofs.SchemaEvolution
import SelectPlanner.Proofs.FieldRules
import SelectPlanner.Proofs.Lowering
import SelectPlanner.Proofs.Histories
import SelectPlanner.Proofs.JsonText
import SelectPlanner.Proofs.Configurations
import SelectPlanner.Proofs.CarriedColumns
import SelectPlanner.Proofs.Climbing
import SelectPlanner.Proofs.Lines
import SelectPlanner.Proofs.FirstFailure
import SelectPlanner.Proofs.Consumption
import SelectPlanner.Proofs.Progress
import SelectPlanner.Proofs.NumberLiterals
import SelectPlanner.Proofs.BatchFaults
import SelectPlanner.Proofs.Settings
import SelectPlanner.Proofs.Collecting
import SelectPlanner.Proofs.JsonTrees
import SelectPlanner.Proofs.QuotedItems
import SelectPlanner.Proofs.Calls
import SelectPlanner.Proofs.GuardedExtensions
