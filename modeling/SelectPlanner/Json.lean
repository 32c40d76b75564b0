/-
JSON values and their text.

Whole numbers and doubles are kept apart, and an object is a list of members in the order of the
text, in which a name may repeat.  A text can be well formed and still stand for nothing: a number
beyond every double, a string with half a surrogate pair, an object with such a name.  These are
the one value `unreadable`; it can be skipped over but not used.
-/
import SelectPlanner.Double.Shortest

namespace SelectPlanner

/-- A JSON value. -/
inductive Json where
  | null
  | bool (value : Bool)
  /-- A number without point and exponent, between -2^63 and 2^64 - 1. -/
  | integer (value : Int)
  /-- Any other number. -/
  | double (value : Double)
  | string (value : String)
  | array (items : List Json)
  /-- Names with values. -/
  | object (members : List (String × Json))
  /-- Well formed text that stands for no value. -/
  | unreadable
  deriving Inhabited

namespace Json

/-- How a character is written in a string. -/
def escape (c : Char) : String :=
  if c = '"' then "\\\""
  else if c = '\\' then "\\\\"
  else if c = '\n' then "\\n"
  else if c = '\r' then "\\r"
  else if c = '\t' then "\\t"
  else if c = '\x08' then "\\b"
  else if c = '\x0c' then "\\f"
  else if c.toNat < 0x20 then
    let digits := Nat.toDigits 16 c.toNat
    "\\u" ++ String.ofList (List.replicate (4 - digits.length) '0' ++ digits)
  else c.toString

/-- A string in its quotes. -/
def renderString (s : String) : String :=
  "\"" ++ String.join (s.toList.map escape) ++ "\""

mutual

/-- A value as text, without blanks.  A double that is not finite has no text and is written as
null. -/
def render : Json → String
  | null => "null"
  | bool true => "true"
  | bool false => "false"
  | integer value => Numeral.renderInt value
  | double value => if value.isFinite then value.render else "null"
  | string value => renderString value
  | array items => "[" ++ renderItems items ++ "]"
  | object members => "\x7b" ++ renderMembers members ++ "\x7d"
  | unreadable => "null"

/-- Items with commas between them. -/
def renderItems : List Json → String
  | [] => ""
  | [item] => item.render
  | item :: items => item.render ++ "," ++ renderItems items

/-- Members with commas between them. -/
def renderMembers : List (String × Json) → String
  | [] => ""
  | [(name, value)] => renderString name ++ ":" ++ value.render
  | (name, value) :: members =>
    renderString name ++ ":" ++ value.render ++ "," ++ renderMembers members

end

end Json

end SelectPlanner
