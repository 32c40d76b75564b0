/-
White space and trimming.

The blanks are the 25 characters with the Unicode property White_Space.  They matter where a text
is trimmed before it is read; the blanks that separate the words of a query are fewer and are
listed with its lexemes.
-/

namespace SelectPlanner.Text

/-- The characters with the Unicode property White_Space. -/
def isBlank (c : Char) : Bool :=
  let n := c.toNat
  (9 ≤ n && n ≤ 13) || n == 0x20 || n == 0x85 || n == 0xa0 || n == 0x1680 ||
    (0x2000 ≤ n && n ≤ 0x200a) || n == 0x2028 || n == 0x2029 || n == 0x202f || n == 0x205f ||
    n == 0x3000

/-- A text without the blanks at its two ends. -/
def trim (cs : List Char) : List Char :=
  ((cs.dropWhile isBlank).reverse.dropWhile isBlank).reverse

theorem isBlank_of_isDigit {c : Char} (h : c.isDigit = true) : isBlank c = false := by
  have hcode : 48 ≤ c.toNat ∧ c.toNat ≤ 57 := by
    simpa using Char.isDigit_iff_toNat.mp h
  simp only [isBlank, Bool.or_eq_false_iff, Bool.and_eq_false_iff, decide_eq_false_iff_not,
    beq_eq_false_iff_ne]
  omega

/-- A text that has no blank at its ends is left alone. -/
theorem trim_of_ends {cs : List Char} (first : cs.head?.all (!isBlank ·))
    (last : cs.getLast?.all (!isBlank ·)) : trim cs = cs := by
  have keep : ∀ l : List Char, l.head?.all (!isBlank ·) → l.dropWhile isBlank = l := by
    intro l h
    cases l with
    | nil => rfl
    | cons c l => simp_all
  rw [trim, keep cs first, keep cs.reverse (by simpa using last), List.reverse_reverse]

end SelectPlanner.Text
