/-
Whole numbers written in decimal.

A numeral is one or more of the ASCII digits; leading zeros are allowed.  Three kinds of number are
read: naturals without a sign, sizes of 64 bits with an optional plus, and longs of 64 bits with
an optional plus or minus.  A number that its kind cannot hold is refused.  Writing uses no more
digits than needed and no plus, and what is written reads back.
-/

namespace SelectPlanner.Numeral

/-- The number that a nonempty run of digits denotes. -/
def natural? (cs : List Char) : Option Nat :=
  if cs ≠ [] ∧ cs.all Char.isDigit then some (Nat.ofDigitChars 10 cs 0) else none

/-- A numeral with an optional sign. -/
def integer? : List Char → Option Int
  | '-' :: cs => (natural? cs).map fun n => -(n : Int)
  | '+' :: cs => (natural? cs).map fun n => (n : Int)
  | cs => (natural? cs).map fun n => (n : Int)

/-- A numeral with an optional plus, below 2^64. -/
def size? (cs : List Char) : Option UInt64 :=
  let digits := match cs with
    | '+' :: cs => cs
    | cs => cs
  (natural? digits).bind fun n => if n < 0x10000000000000000 then some (UInt64.ofNat n) else none

/-- A numeral with an optional sign, from -2^63 to 2^63 - 1. -/
def long? (cs : List Char) : Option Int64 :=
  (integer? cs).bind fun n =>
    if -0x8000000000000000 ≤ n ∧ n < 0x8000000000000000 then some (Int64.ofInt n) else none

/-- The digits of a natural number. -/
def digits (n : Nat) : List Char :=
  Nat.toDigits 10 n

/-- A natural number in decimal. -/
def render (n : Nat) : String :=
  String.ofList (digits n)

/-- A whole number in decimal, with a minus if it is negative. -/
def renderInt : Int → String
  | .ofNat n => render n
  | .negSucc n => "-" ++ render (n + 1)

/-! ### What is written reads back -/

theorem toList_render (n : Nat) : (render n).toList = digits n :=
  String.toList_ofList

theorem digits_ne_nil (n : Nat) : digits n ≠ [] :=
  Nat.toDigits_ne_nil

theorem isDigit_of_mem_digits {n : Nat} {c : Char} (h : c ∈ digits n) : c.isDigit = true :=
  Nat.isDigit_of_mem_toDigits (by decide) (by decide) h

theorem ofDigitChars_digits (n : Nat) : Nat.ofDigitChars 10 (digits n) 0 = n :=
  Nat.ofDigitChars_toDigits (by decide) (by decide)

theorem natural?_digits (n : Nat) : natural? (digits n) = some n := by
  have digit : ∀ c ∈ digits n, c.isDigit := fun c h => isDigit_of_mem_digits h
  rw [natural?, if_pos ⟨digits_ne_nil n, List.all_eq_true.mpr digit⟩, ofDigitChars_digits]

/-- A run of digits starts with no sign. -/
theorem integer?_of_natural? {cs : List Char} {n : Nat} (h : natural? cs = some n) :
    integer? cs = some (n : Int) := by
  unfold integer?
  split
  · simp [natural?] at h
  · simp [natural?] at h
  · simp [h]

theorem size?_digits {n : Nat} (h : n < 0x10000000000000000) :
    size? (digits n) = some (UInt64.ofNat n) := by
  have read := natural?_digits n
  unfold size?
  split
  next heq => simp [heq, natural?] at read
  next => simp only [read, Option.bind_some, if_pos h]

theorem long?_digits {n : Nat} (h : n < 0x8000000000000000) :
    long? (digits n) = some (Int64.ofNat n) := by
  rw [long?, integer?_of_natural? (natural?_digits n), Option.bind_some,
    if_pos ⟨by omega, by omega⟩]
  rfl

end SelectPlanner.Numeral
