/-
Texts quoted inside a message.

A quoted text stands between double quotes, with a backslash before a double quote or a
backslash, the four common controls by their letters, and every other character that cannot be
shown as its code point in hexadecimal.  A list of texts stands in brackets.
-/
import SelectPlanner.Text.Printable

namespace SelectPlanner.Text

/-- How a character is written between quotes. -/
def escape (c : Char) : String :=
  if c = '"' then "\\\""
  else if c = '\\' then "\\\\"
  else if c = '\n' then "\\n"
  else if c = '\r' then "\\r"
  else if c = '\t' then "\\t"
  else if c = '\x00' then "\\0"
  else if isPrintable c then c.toString
  else "\\u\x7b" ++ String.ofList (Nat.toDigits 16 c.toNat) ++ "\x7d"

/-- A text between quotes. -/
def quoted (s : String) : String :=
  "\"" ++ String.join (s.toList.map escape) ++ "\""

/-- A list of quoted texts. -/
def quotedList (items : List String) : String :=
  "[" ++ ", ".intercalate (items.map quoted) ++ "]"

end SelectPlanner.Text
