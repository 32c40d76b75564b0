/-
The lexemes of a query: the pieces that its text falls into.

Every character of a text belongs to one lexeme.  Gaps and comments separate; the others each
stand for a token.  `scan` looks at the front of a text and takes the longest lexeme that starts
there.  A number takes its point only with a digit behind it, and an exponent only after a point
and only when it is complete.  A string takes everything up to the quote that closes it and never
gives any of it back: one that does not close is an error over all that was looked at.
-/

namespace SelectPlanner

/-- The kinds of lexeme. -/
inductive Lexeme.Kind where
  /-- Blanks and line ends. -/
  | gap
  /-- Two hyphens and what follows them on the line. -/
  | comment
  /-- A letter or underscore, then letters, digits and underscores. -/
  | word
  /-- Digits. -/
  | long
  /-- Digits, a point, digits, and possibly an exponent. -/
  | double
  /-- A string in its quotes. -/
  | quoted
  | operator
  | punctuation
  deriving DecidableEq, Inhabited, Repr

/-- A piece of a text. -/
structure Lexeme where
  /-- What it is. -/
  kind : Lexeme.Kind
  /-- What it says. -/
  text : List Char
  deriving DecidableEq, Inhabited, Repr

namespace Lexeme

/-! ### Characters -/

/-- The characters of a gap. -/
def isGap (c : Char) : Bool :=
  c == ' ' || c == '\t' || c == '\r' || c == '\n' || c == '\x0c'

/-- The characters that start a word. -/
def isWordStart (c : Char) : Bool := c.isAlpha || c == '_'

/-- The characters that continue a word. -/
def isWordPart (c : Char) : Bool := c.isAlphanum || c == '_'

/-- The operators of one character. -/
def operators : List Char := ['=', '<', '>', '+', '-', '*', '/', '%']

/-- The operators of two characters. -/
def longOperators : List (Char × Char) := [('!', '='), ('<', '>'), ('<', '='), ('>', '=')]

/-- The separators. -/
def punctuation : List Char := [',', '(', ')', ';']

/-! ### Parts of a number -/

/-- The digits at the front. -/
def digits (cs : List Char) : List Char := cs.takeWhile Char.isDigit

/-- The sign at the front. -/
def sign : List Char → List Char
  | c :: _ => if c = '+' ∨ c = '-' then [c] else []
  | [] => []

/-- The point and digits at the front. -/
def fraction : List Char → List Char
  | c :: cs => if c = '.' ∧ digits cs ≠ [] then c :: digits cs else []
  | [] => []

/-- The exponent at the front. -/
def exponent : List Char → List Char
  | c :: cs =>
    let power := digits (cs.drop (sign cs).length)
    if (c = 'e' ∨ c = 'E') ∧ power ≠ [] then c :: sign cs ++ power else []
  | [] => []

/-- What continues a number after its first digit. -/
def numberTail (cs : List Char) : Kind × List Char :=
  let whole := digits cs
  let afterWhole := cs.drop whole.length
  let part := fraction afterWhole
  if part = [] then (.long, whole)
  else (.double, whole ++ part ++ exponent (afterWhole.drop part.length))

/-! ### Strings -/

/-- What is read of a string, whether it closes or not, with `front` before it. -/
def prepend (front : List Char) : Except (List Char) (List Char) → Except (List Char) (List Char)
  | .ok tail => .ok (front ++ tail)
  | .error seen => .error (front ++ seen)

/-- What continues a string after its first quote, up to the quote that closes it.  Two quotes, or a
backslash and a character that ends no line, stand for one character of the string.  The error is
what was looked at in vain. -/
def quotedTail : List Char → Except (List Char) (List Char)
  | [] => .error []
  | '\'' :: '\'' :: cs => prepend ['\'', '\''] (quotedTail cs)
  | '\'' :: _ => .ok ['\'']
  | '\\' :: c :: cs => if c = '\n' then .error [] else prepend ['\\', c] (quotedTail cs)
  | ['\\'] => .error []
  | c :: cs => prepend [c] (quotedTail cs)

/-- The string that a text between quotes stands for. -/
def decode : List Char → List Char
  | [] => []
  | [c] => if c = '\\' ∨ c = '\'' then [] else [c]
  | c :: d :: cs => if c = '\\' ∨ c = '\'' then d :: decode cs else c :: decode (d :: cs)

/-- The string that a string lexeme stands for. -/
def unquote (text : List Char) : List Char := decode text.tail.dropLast

/-! ### Taking a text apart -/

/-- What continues an operator after its first character. -/
def operatorTail? (c : Char) (cs : List Char) : Option (List Char) :=
  let second := cs.take 1
  if second.any fun d => longOperators.contains (c, d) then some second
  else if operators.contains c then some []
  else none

/-- The lexeme that starts with `c` at the front of `c :: cs`: its kind and what belongs to it after
`c`.  The error is what was looked at in vain. -/
def scan (c : Char) (cs : List Char) : Except (List Char) (Kind × List Char) :=
  if isGap c then .ok (.gap, cs.takeWhile isGap)
  else if isWordStart c then .ok (.word, cs.takeWhile isWordPart)
  else if c.isDigit then .ok (numberTail cs)
  else if c = '\'' then
    match quotedTail cs with
    | .ok tail => .ok (.quoted, tail)
    | .error seen => .error (c :: seen)
  else if c = '-' ∧ cs.head? = some '-' then .ok (.comment, cs.takeWhile (· != '\n'))
  else if punctuation.contains c then .ok (.punctuation, [])
  else
    match operatorTail? c cs with
    | some tail => .ok (.operator, tail)
    | none => .error [c]

/-- The number of bytes that a text takes. -/
def byteLength : List Char → Nat
  | [] => 0
  | c :: cs => c.utf8Size + byteLength cs

theorem byteLength_append (cs cs' : List Char) :
    byteLength (cs ++ cs') = byteLength cs + byteLength cs' := by
  induction cs with
  | nil => rw [List.nil_append, byteLength, Nat.zero_add]
  | cons c cs ih => rw [List.cons_append, byteLength, byteLength, ih, Nat.add_assoc]

theorem utf8ByteSize_ofList (cs : List Char) : (String.ofList cs).utf8ByteSize = byteLength cs := by
  induction cs with
  | nil => rfl
  | cons c cs ih =>
    calc (String.ofList (c :: cs)).utf8ByteSize
        = (String.ofList [c]).utf8ByteSize + (String.ofList cs).utf8ByteSize := by
          rw [← String.utf8ByteSize_append, ← String.ofList_append, List.singleton_append]
      _ = c.utf8Size + byteLength cs := by
          rw [← String.singleton_eq_ofList, String.utf8ByteSize_singleton, ih]

theorem byteLength_toList (s : String) : byteLength s.toList = s.utf8ByteSize := by
  rw [← utf8ByteSize_ofList, String.ofList_toList]

/-- Where a text stops falling into lexemes. -/
structure Stuck where
  /-- The number of bytes before. -/
  position : Nat
  /-- What was looked at in vain. -/
  fragment : List Char
  deriving DecidableEq, Repr

/-- Moves the place back behind a text. -/
def Stuck.behind (front : List Char) (s : Stuck) : Stuck :=
  { s with position := byteLength front + s.position }

theorem Stuck.behind_behind (front mid : List Char) (s : Stuck) :
    (s.behind mid).behind front = s.behind (front ++ mid) := by
  rw [behind, behind, behind, byteLength_append, Nat.add_assoc]

/-- The lexemes of a text. -/
def ofText : List Char → Except Stuck (List Lexeme)
  | [] => .ok []
  | c :: cs =>
    match scan c cs with
    | .error fragment => .error ⟨0, fragment⟩
    | .ok (kind, tail) =>
      match ofText (cs.drop tail.length) with
      | .error stuck => .error (stuck.behind (c :: tail))
      | .ok lexemes => .ok (⟨kind, c :: tail⟩ :: lexemes)
termination_by cs => cs.length
decreasing_by simp only [List.length_drop, List.length_cons]; omega

end Lexeme

end SelectPlanner
