/-
Reading JSON text.

The grammar is the strict one: blanks are the space, the tab and the two line ends, a string holds
no raw control character, a number has no needless zero in front, nothing may follow the value.
Inside a string, an escape by code unit that is the first half of a surrogate pair has to be
followed at once by one that is the second half; a string in which one stands alone is well formed
but unreadable.
-/
import SelectPlanner.Json.Number
import SelectPlanner.Reading

namespace SelectPlanner.Json

/-- What a reader of JSON finds, if the text is well formed. -/
abbrev Read (bound : Nat) (α : Type) := Option (Reading Char bound α)

/-- The characters that may stand between the parts of a value. -/
def isSpace (c : Char) : Bool := c == ' ' || c == '\t' || c == '\n' || c == '\r'

/-- What follows the blanks at the front. -/
def skipSpace (cs : List Char) : List Char := cs.dropWhile isSpace

theorem length_skipSpace (cs : List Char) : (skipSpace cs).length ≤ cs.length :=
  (List.dropWhile_suffix _).length_le

theorem length_of_skipSpace {c : Char} {cs rest : List Char} (h : skipSpace cs = c :: rest) :
    rest.length < cs.length := by
  have := length_skipSpace cs
  rw [h] at this
  exact this

/-! ### Strings -/

/-- A part of a string: a character, or half a character that was escaped by code unit. -/
inductive Piece where
  | char (c : Char)
  | unit (code : Nat)

/-- The value of a hexadecimal digit. -/
def hexDigit? (c : Char) : Option Nat :=
  if c.isDigit then some (c.toNat - '0'.toNat)
  else if 'a' ≤ c ∧ c ≤ 'f' then some (c.toNat - 'a'.toNat + 10)
  else if 'A' ≤ c ∧ c ≤ 'F' then some (c.toNat - 'A'.toNat + 10)
  else none

/-- The code unit that four hexadecimal digits denote. -/
def codeUnit? (a b c d : Char) : Option Nat := do
  let a ← hexDigit? a
  let b ← hexDigit? b
  let c ← hexDigit? c
  let d ← hexDigit? d
  some (a * 4096 + b * 256 + c * 16 + d)

/-- The character that a letter after a backslash stands for. -/
def escaped? (c : Char) : Option Char :=
  match c with
  | '"' => some '"'
  | '\\' => some '\\'
  | '/' => some '/'
  | 'b' => some '\x08'
  | 'f' => some '\x0c'
  | 'n' => some '\n'
  | 'r' => some '\r'
  | 't' => some '\t'
  | _ => none

/-- The parts of a string after its first quote, up to the quote that closes it. -/
def pieces : (cs : List Char) → Read cs.length (List Piece)
  | [] => none
  | '"' :: cs => some ⟨[], cs, Nat.le_succ _⟩
  | '\\' :: 'u' :: a :: b :: c :: d :: cs =>
    (codeUnit? a b c d).bind fun code => (pieces cs).map fun r =>
      (r.map (.unit code :: ·)).widen (Nat.le_add_right _ 6)
  | '\\' :: e :: cs =>
    (escaped? e).bind fun c => (pieces cs).map fun r =>
      (r.map (.char c :: ·)).widen (Nat.le_add_right _ 2)
  | c :: cs =>
    if c.toNat < 0x20 ∨ c = '\\' then none
    else (pieces cs).map fun r => (r.map (.char c :: ·)).widen (Nat.le_succ _)

/-- Puts the parts of a string together, unless half of a pair is left alone. -/
def assemble : List Piece → Option (List Char)
  | [] => some []
  | .char c :: ps => (assemble ps).map (c :: ·)
  | .unit high :: .unit low :: ps =>
    if 0xd800 ≤ high ∧ high < 0xdc00 then
      if 0xdc00 ≤ low ∧ low < 0xe000 then
        (assemble ps).map (Char.ofNat (0x10000 + (high - 0xd800) * 0x400 + (low - 0xdc00)) :: ·)
      else none
    else if 0xdc00 ≤ high ∧ high < 0xe000 then none
    else (assemble (.unit low :: ps)).map (Char.ofNat high :: ·)
  | .unit code :: ps =>
    if 0xd800 ≤ code ∧ code < 0xe000 then none else (assemble ps).map (Char.ofNat code :: ·)

/-- A string after its first quote; the value is none if the string is unreadable. -/
def stringBody (cs : List Char) : Read cs.length (Option String) :=
  (pieces cs).map (·.map fun ps => (assemble ps).map String.ofList)

/-! ### Numbers and words -/

/-- The sign at the front, if there is one, and what follows. -/
def signOf : List Char → Option Char × List Char
  | c :: cs => if c = '+' ∨ c = '-' then (some c, cs) else (none, c :: cs)
  | [] => (none, [])

/-- The digits at the front, one at least, and what follows. -/
def digits? (cs : List Char) : Option (List Char × List Char) :=
  if cs.takeWhile Char.isDigit = [] then none
  else some (cs.takeWhile Char.isDigit, cs.dropWhile Char.isDigit)

/-- The fraction at the front, if there is a point. -/
def fraction? : List Char → Option (Option (List Char) × List Char)
  | '.' :: cs => (digits? cs).map fun (digits, rest) => (some digits, rest)
  | cs => some (none, cs)

/-- The exponent at the front, if there is its letter. -/
def exponent? : List Char → Option (Option Int × List Char)
  | c :: cs =>
    if c = 'e' ∨ c = 'E' then
      (digits? (signOf cs).2).map fun (digits, rest) =>
        let n : Int := Nat.ofDigitChars 10 digits 0
        (some (if (signOf cs).1 = some '-' then -n else n), rest)
    else some (none, c :: cs)
  | [] => some (none, [])

/-- A number without its sign, and what follows. -/
def unsigned? (negative : Bool) (cs : List Char) : Option (NumberText × List Char) :=
  (digits? cs).bind fun (whole, rest) =>
    if whole.head? = some '0' ∧ whole ≠ ['0'] then none
    else (fraction? rest).bind fun (fraction, rest) =>
      (exponent? rest).map fun (exponent, rest) => (⟨negative, whole, fraction, exponent⟩, rest)

theorem length_signOf (cs : List Char) : (signOf cs).2.length ≤ cs.length := by
  unfold signOf
  split
  · split <;> simp
  · simp

theorem length_of_digits? {cs digits rest : List Char} (h : digits? cs = some (digits, rest)) :
    rest.length < cs.length := by
  unfold digits? at h
  split at h
  · simp at h
  · next some =>
    obtain ⟨rfl, rfl⟩ := by simpa using h
    have whole : (cs.takeWhile Char.isDigit ++ cs.dropWhile Char.isDigit).length = cs.length := by
      rw [List.takeWhile_append_dropWhile]
    have := List.length_pos_iff.mpr some
    rw [List.length_append] at whole
    omega

theorem length_of_fraction? {cs rest : List Char} {digits : Option (List Char)}
    (h : fraction? cs = some (digits, rest)) : rest.length ≤ cs.length := by
  unfold fraction? at h
  split at h
  · obtain ⟨⟨digits, rest⟩, found, h⟩ := Option.map_eq_some_iff.mp h
    obtain ⟨-, rfl⟩ := by simpa using h
    have := length_of_digits? found
    simp only [List.length_cons]
    omega
  · obtain ⟨-, rfl⟩ := by simpa using h
    exact Nat.le_refl _

theorem length_of_exponent? {cs rest : List Char} {power : Option Int}
    (h : exponent? cs = some (power, rest)) : rest.length ≤ cs.length := by
  unfold exponent? at h
  split at h
  · split at h
    · next c cs _ =>
      obtain ⟨⟨digits, rest⟩, found, h⟩ := Option.map_eq_some_iff.mp h
      obtain ⟨-, rfl⟩ := by simpa using h
      have := length_of_digits? found
      have := length_signOf cs
      simp only [List.length_cons]
      omega
    · obtain ⟨-, rfl⟩ := by simpa using h
      exact Nat.le_refl _
  · obtain ⟨-, rfl⟩ := by simpa using h
    exact Nat.le_refl _

theorem length_of_unsigned? {negative : Bool} {cs rest : List Char} {n : NumberText}
    (h : unsigned? negative cs = some (n, rest)) : rest.length < cs.length := by
  obtain ⟨⟨whole, rest₁⟩, found₁, h⟩ := Option.bind_eq_some_iff.mp h
  simp only at h
  split at h
  · simp at h
  · obtain ⟨⟨digits, rest₂⟩, found₂, h⟩ := Option.bind_eq_some_iff.mp h
    obtain ⟨⟨power, rest₃⟩, found₃, h⟩ := Option.map_eq_some_iff.mp h
    obtain ⟨-, rfl⟩ := by simpa using h
    have := length_of_digits? found₁
    have := length_of_fraction? found₂
    have : rest₃.length ≤ rest₂.length := length_of_exponent? found₃
    omega

/-- The number that starts with `c`. -/
def number (c : Char) (cs : List Char) : Read cs.length Json :=
  if c = '-' then
    match h : unsigned? true cs with
    | none => none
    | some (n, rest) => some ⟨n.value, rest, Nat.le_of_lt (length_of_unsigned? h)⟩
  else
    match h : unsigned? false (c :: cs) with
    | none => none
    | some (n, rest) => some ⟨n.value, rest, Nat.le_of_lt_succ (length_of_unsigned? h)⟩

/-- The value that a word stands for, if the word is at the front. -/
def word (text : List Char) (value : Json) (cs : List Char) : Read cs.length Json :=
  if text.isPrefixOf cs then some ⟨value, cs.drop text.length, by simp⟩ else none

/-- The word or number that starts with `c`. -/
def atom (c : Char) (cs : List Char) : Read cs.length Json :=
  match c with
  | 'n' => word ['u', 'l', 'l'] null cs
  | 't' => word ['r', 'u', 'e'] (bool true) cs
  | 'f' => word ['a', 'l', 's', 'e'] (bool false) cs
  | c => number c cs

/-! ### Values -/

/-- An object with these members, if all names are readable. -/
def ofMembers (members : List (Option String × Json)) : Json :=
  let named := members.mapM fun (member : Option String × Json) => member.1.map (·, member.2)
  (named.map object).getD unreadable

mutual

/-- The value at the front of `c :: cs`, which is no blank. -/
def value (c : Char) (cs : List Char) : Read cs.length Json :=
  match c with
  | '"' => (stringBody cs).map (·.map fun s => (s.map string).getD unreadable)
  | '[' =>
    match h : skipSpace cs with
    | [] => none
    | d :: rest =>
      have shorter := length_of_skipSpace h
      if d = ']' then some ⟨array [], rest, Nat.le_of_lt shorter⟩
      else (items d rest).map fun r => (r.map array).widen (Nat.le_of_lt shorter)
  | '\x7b' =>
    match h : skipSpace cs with
    | [] => none
    | d :: rest =>
      have shorter := length_of_skipSpace h
      if d = '\x7d' then some ⟨object [], rest, Nat.le_of_lt shorter⟩
      else (members d rest).map fun r => (r.map ofMembers).widen (Nat.le_of_lt shorter)
  | c => atom c cs
termination_by 2 * cs.length

/-- The items of an array, from the first to the bracket that closes it. -/
def items (c : Char) (cs : List Char) : Read cs.length (List Json) :=
  match value c cs with
  | none => none
  | some ⟨item, rest, h₁⟩ =>
    match h₂ : skipSpace rest with
    | ']' :: more => some ⟨[item], more,
      Nat.le_trans (Nat.le_of_lt (length_of_skipSpace h₂)) h₁⟩
    | ',' :: more =>
      match h₃ : skipSpace more with
      | [] => none
      | d :: others =>
        have shorter : others.length < cs.length :=
          Nat.lt_trans (length_of_skipSpace h₃) (Nat.lt_of_lt_of_le (length_of_skipSpace h₂) h₁)
        (items d others).map fun r => (r.map (item :: ·)).widen (Nat.le_of_lt shorter)
    | _ => none
termination_by 2 * cs.length + 1

/-- The members of an object, from the first to the brace that closes it. -/
def members (c : Char) (cs : List Char) : Read cs.length (List (Option String × Json)) :=
  if c ≠ '"' then none
  else
    match stringBody cs with
    | none => none
    | some ⟨name, afterName, h₁⟩ =>
      match h₂ : skipSpace afterName with
      | ':' :: afterColon =>
        match h₃ : skipSpace afterColon with
        | [] => none
        | v :: vs =>
          have shorter : vs.length < cs.length :=
            Nat.lt_trans (length_of_skipSpace h₃) (Nat.lt_of_lt_of_le (length_of_skipSpace h₂) h₁)
          match value v vs with
          | none => none
          | some ⟨first, rest, h₄⟩ =>
            match h₅ : skipSpace rest with
            | '\x7d' :: more => some ⟨[(name, first)], more,
              Nat.le_of_lt (Nat.lt_trans (Nat.lt_of_lt_of_le (length_of_skipSpace h₅) h₄) shorter)⟩
            | ',' :: more =>
              match h₆ : skipSpace more with
              | [] => none
              | d :: others =>
                have shorter' : others.length < cs.length :=
                  Nat.lt_trans (length_of_skipSpace h₆)
                    (Nat.lt_trans (Nat.lt_of_lt_of_le (length_of_skipSpace h₅) h₄) shorter)
                (members d others).map fun r =>
                  (r.map ((name, first) :: ·)).widen (Nat.le_of_lt shorter')
            | _ => none
      | _ => none
termination_by 2 * cs.length

end

/-- The value that a text is, if it is well formed. -/
def ofText? (text : String) : Option Json :=
  match skipSpace text.toList with
  | [] => none
  | c :: cs => (value c cs).bind fun r => if skipSpace r.rest = [] then some r.value else none

end SelectPlanner.Json
