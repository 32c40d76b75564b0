/-
The tokens of a text.

A text is first taken apart into lexemes; then each lexeme but the gaps and comments becomes a
token.  A word that is a keyword in any case becomes that keyword in upper case, and `<>` becomes
the other spelling of the same operator, `!=`.
-/
import SelectPlanner.Error
import SelectPlanner.Token
import SelectPlanner.Token.Lexeme

namespace SelectPlanner

/-- The token of a word. -/
def Token.ofWord (word : List Char) : Token :=
  let upper := String.ofList (word.map Char.toUpper)
  if Token.keywords.contains upper then ⟨.keyword, upper⟩ else ⟨.identifier, String.ofList word⟩

/-- The token of an operator. -/
def Token.ofOperator (symbol : List Char) : Token :=
  ⟨.operator, if symbol = ['<', '>'] then "!=" else String.ofList symbol⟩

/-- The token that a lexeme stands for. -/
def Lexeme.token? (l : Lexeme) : Option Token :=
  match l.kind with
  | .gap | .comment => none
  | .word => some (.ofWord l.text)
  | .long => some ⟨.long, String.ofList l.text⟩
  | .double => some ⟨.double, String.ofList l.text⟩
  | .quoted => some ⟨.string, String.ofList (unquote l.text)⟩
  | .operator => some (.ofOperator l.text)
  | .punctuation => some ⟨.punctuation, String.ofList l.text⟩

/-- The error of a text that does not fall into lexemes. -/
def Lexeme.Stuck.toError (s : Stuck) : Error := .unrecognised s.position (String.ofList s.fragment)

/-- The tokens of a text. -/
def Token.ofText (sql : String) : Except Error (List Token) :=
  match Lexeme.ofText sql.toList with
  | .ok lexemes => .ok (lexemes.filterMap Lexeme.token?)
  | .error stuck => .error stuck.toError

end SelectPlanner
