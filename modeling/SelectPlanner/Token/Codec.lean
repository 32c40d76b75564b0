/-
Tokens as JSON.
-/
import SelectPlanner.Json.Shape
import SelectPlanner.Token

namespace SelectPlanner

/-- The kinds of token by their names. -/
def Token.Kind.names : List (String × Token.Kind) :=
  [("Identifier", .identifier), ("Keyword", .keyword), ("Operator", .operator),
   ("Punctuation", .punctuation), ("LiteralString", .string), ("LiteralLong", .long),
   ("LiteralDouble", .double)]

/-- The name of a kind. -/
def Token.Kind.name : Token.Kind → String
  | identifier => "Identifier"
  | keyword => "Keyword"
  | operator => "Operator"
  | punctuation => "Punctuation"
  | string => "LiteralString"
  | long => "LiteralLong"
  | double => "LiteralDouble"

/-- A kind as JSON. -/
def Token.Kind.toJson (k : Token.Kind) : Json := .string k.name

/-- The kind that a JSON value is. -/
def Token.Kind.ofJson? : Nat → Json → Option Token.Kind := Json.plainChoice? names

/-- A token as JSON. -/
def Token.toJson (t : Token) : Json :=
  .object [("kind", t.kind.toJson), ("text", .string t.text)]

/-- The token that a JSON value is. -/
def Token.ofJson? : Nat → Json → Option Token
  | 0, _ => none
  | depth + 1, j =>
    match j.fields? ["kind", "text"] with
    | some [some kind, some text] => do
      some ⟨← Kind.ofJson? depth kind, ← text.string?⟩
    | _ => none

end SelectPlanner
