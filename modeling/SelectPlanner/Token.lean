/-
The tokens of a query.

A token is a kind and a text.  Keywords are in upper case when they come from a query, and a
keyword is looked for in any case; how tightly a token binds the expressions on its two sides is
decided by its kind and its exact text.
-/

namespace SelectPlanner

/-- The kinds of token. -/
inductive Token.Kind where
  /-- The name of a column or table. -/
  | identifier
  /-- A word of the language. -/
  | keyword
  /-- A symbol between two expressions. -/
  | operator
  /-- A symbol that separates or closes. -/
  | punctuation
  /-- A text between quotes, without them. -/
  | string
  /-- Digits. -/
  | long
  /-- Digits with a point. -/
  | double
  deriving DecidableEq, Inhabited, Repr

/-- A word, symbol or literal of a query. -/
structure Token where
  /-- What it is. -/
  kind : Token.Kind
  /-- What it says. -/
  text : String
  deriving DecidableEq, Inhabited, Repr

namespace Token

/-- The words that are no identifiers, in upper case. -/
def keywords : List String := ["SELECT", "FROM", "WHERE", "AS", "AND", "OR"]

/-- What a kind is called in a message. -/
def Kind.label : Kind → String
  | identifier => "identifier"
  | keyword => "keyword"
  | operator => "operator"
  | punctuation => "punctuation"
  | string => "string literal"
  | long => "integer literal"
  | double => "double literal"

/-- A token as a message shows it. -/
def render (t : Token) : String :=
  t.kind.label ++ " '" ++ t.text ++ "'"

/-- Whether two words differ at most in the case of ASCII letters. -/
def sameWord (a b : String) : Bool :=
  a.toList.map Char.toUpper == b.toList.map Char.toUpper

/-- Whether it is this keyword. -/
def isKeyword (t : Token) (word : String) : Bool :=
  t.kind == .keyword && sameWord t.text word

/-- Whether it is this separator. -/
def isPunctuation (t : Token) (symbol : String) : Bool :=
  t.kind == .punctuation && t.text == symbol

/-- How tightly a token binds what stands on its two sides.  A token that continues no expression
has 0. -/
def precedence (t : Token) : Nat :=
  match t.kind with
  | .keyword =>
    match t.text with
    | "AS" => 10
    | "OR" => 20
    | "AND" => 30
    | _ => 0
  | .operator =>
    match t.text with
    | "<" | "<=" | "=" | "!=" | ">=" | ">" => 40
    | "+" | "-" => 50
    | "*" | "/" => 60
    | _ => 0
  | _ => 0

/-! ### Tokens in a row -/

/-- How tightly the next token binds; the end of the input does not. -/
def nextPrecedence (ts : List Token) : Nat :=
  ts.head?.elim 0 precedence

/-- What follows this keyword, if it is what comes next. -/
def afterKeyword? (word : String) : List Token → Option (List Token)
  | t :: ts => if t.isKeyword word then some ts else none
  | [] => none

/-- What follows this separator, if it is what comes next. -/
def afterPunctuation? (symbol : String) : List Token → Option (List Token)
  | t :: ts => if t.isPunctuation symbol then some ts else none
  | [] => none

/-- The next token as a message shows it. -/
def describeNext (ts : List Token) : String :=
  ts.head?.elim "end of input" render

theorem length_of_afterKeyword? {word : String} {ts rest : List Token}
    (h : afterKeyword? word ts = some rest) : rest.length < ts.length := by
  cases ts with
  | nil => simp [afterKeyword?] at h
  | cons t ts =>
    simp only [afterKeyword?] at h
    split at h <;> simp_all

theorem length_of_afterPunctuation? {symbol : String} {ts rest : List Token}
    (h : afterPunctuation? symbol ts = some rest) : rest.length < ts.length := by
  cases ts with
  | nil => simp [afterPunctuation?] at h
  | cons t ts =>
    simp only [afterPunctuation?] at h
    split at h <;> simp_all

end Token

end SelectPlanner
