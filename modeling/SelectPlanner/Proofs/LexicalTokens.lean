/-
What sets the tokens of a text apart.

Nothing keeps a token from being a keyword that the language lacks, or a number with a sign.  The
tokens of a text are neither, because each is the token of a longest match.  For their numbers this
decides what reading them gives: a whole number is refused only if it is too large, and one with a
fraction never is.
-/
import Mathlib
import SelectPlanner.Double.Decimal
import SelectPlanner.Numeral
import SelectPlanner.Proofs.Bracketing
import SelectPlanner.Proofs.Tokenization

namespace SelectPlanner

namespace Token

/-- Keywords are spelt as the language has them, and numbers have no sign. -/
structure Lexical (t : Token) : Prop where
  spelt : t.Spelt
  long : t.kind = .long → t.text.toList ∈ Lexeme.Kind.long.pattern
  double : t.kind = .double → t.text.toList ∈ Lexeme.Kind.double.pattern

variable {t : Token}

theorem lexical_of_spelt (hspelt : t.Spelt) (hlong : t.kind ≠ .long) (hdouble : t.kind ≠ .double) :
    t.Lexical :=
  ⟨hspelt, fun h => absurd h hlong, fun h => absurd h hdouble⟩

/-- Some piece of a text stands for the token. -/
def Written (t : Token) : Prop := ∃ l : Lexeme, l.text ∈ l.kind.pattern ∧ l.Stands t

theorem written_of_ofText {sql : String} {ts : List Token} (h : ofText sql = .ok ts) :
    ∀ t ∈ ts, t.Written := by
  obtain ⟨pieces, hmunch, rfl⟩ := ofText_eq_ok_iff_reads.mp h
  intro t ht
  obtain ⟨l, hl, hlt⟩ := List.mem_filterMap.mp ht
  have hmatched := Lexeme.matched_of_munch hmunch l hl
  by_cases hsep : l.kind.separates = true
  · rw [Lexeme.token?_eq_none hsep] at hlt
    cases hlt
  · obtain ⟨t', ht', hstands⟩ := Lexeme.exists_stands hmatched hsep
    obtain rfl := Option.some.inj (hlt.symm.trans ht')
    exact ⟨l, hmatched, hstands⟩

theorem Written.lexical (h : t.Written) : t.Lexical := by
  obtain ⟨l, hl, hstands⟩ := h
  cases hstands with
  | keyword hname _ => exact lexical_of_spelt (fun _ => hname) nofun nofun
  | identifier | quoted | unequal | operator | punctuation =>
      exact lexical_of_spelt nofun nofun nofun
  | long text =>
      refine ⟨nofun, fun _ => ?_, nofun⟩
      rwa [String.toList_ofList]
  | double text =>
      refine ⟨nofun, nofun, fun _ => ?_⟩
      rwa [String.toList_ofList]

theorem lexical_of_ofText {sql : String} {ts : List Token} (h : ofText sql = .ok ts) :
    ∀ t ∈ ts, t.Lexical :=
  fun t ht => (written_of_ofText h t ht).lexical

end Token

/-! ### Whole numbers -/

namespace Numeral

variable {cs : List Char}

theorem natural?_of_digits (hne : cs ≠ []) (h : ∀ c ∈ cs, Lexeme.Digit c) :
    natural? cs = some (Nat.ofDigitChars 10 cs 0) := by
  have hall : cs.all Char.isDigit = true := by
    rw [List.all_eq_true]
    intro c hc
    exact Lexeme.isDigit_iff.mpr (h c hc)
  rw [natural?, if_pos ⟨hne, hall⟩]

theorem long?_of_natural? {n : Nat} (h : natural? cs = some n) :
    long? cs = if n < 0x8000000000000000 then some (Int64.ofNat n) else none := by
  rw [long?, integer?_of_natural? h, Option.bind_some]
  by_cases hn : n < 0x8000000000000000
  · rw [if_pos ⟨by omega, by omega⟩, if_pos hn]
    rfl
  · rw [if_neg (by omega), if_neg hn]

theorem toInt_of_long? {n : Nat} {value : Int64} (hn : natural? cs = some n)
    (h : long? cs = some value) : n < 0x8000000000000000 ∧ value.toInt = n := by
  rw [long?_of_natural? hn] at h
  by_cases hsmall : n < 0x8000000000000000
  · rw [if_pos hsmall] at h
    obtain rfl := Option.some.inj h
    exact ⟨hsmall, Int64.toInt_ofNat_of_lt hsmall⟩
  · rw [if_neg hsmall] at h
    cases h

/-- Only the size of a number without a sign keeps it from being read. -/
theorem exists_long?_iff {n : Nat} (h : natural? cs = some n) :
    (∃ value, long? cs = some value) ↔ n < 0x8000000000000000 := by
  rw [long?_of_natural? h]
  by_cases hn : n < 0x8000000000000000
  · simp [hn]
  · simp [hn]

theorem exists_integer? {s power : List Char} (hs : s = [] ∨ s = ['+'] ∨ s = ['-'])
    (hne : power ≠ []) (hpower : ∀ c ∈ power, Lexeme.Digit c) :
    ∃ n, integer? (s ++ power) = some n := by
  have hnatural := natural?_of_digits hne hpower
  rcases hs with rfl | rfl | rfl
  · exact ⟨_, integer?_of_natural? hnatural⟩
  · show ∃ n, (natural? power).map (fun n => (n : Int)) = some n
    rw [hnatural]
    exact ⟨_, rfl⟩
  · show ∃ n, (natural? power).map (fun n => -(n : Int)) = some n
    rw [hnatural]
    exact ⟨_, rfl⟩

end Numeral

/-! ### Numbers with a fraction -/

namespace Double

variable {text : List Char}

theorem exists_exponent? (h : text = [] ∨ text ∈ Lexeme.exponentPattern) :
    ∃ n, exponent? text = some n := by
  rcases h with rfl | h
  · exact ⟨0, rfl⟩
  · obtain ⟨e, s, power, rfl, he, hs, hne, hpower⟩ := Lexeme.mem_exponentPattern.mp h
    rw [exponent?, if_pos he]
    exact Numeral.exists_integer? hs hne hpower

/-- A point or an exponent starts with no digit. -/
theorem dropWhile_digits {run rest : List Char} (hrun : ∀ c ∈ run, Lexeme.Digit c)
    (hrest : ∀ c ∈ rest.head?, ¬ Lexeme.Digit c) :
    (run ++ rest).takeWhile Char.isDigit = run ∧ (run ++ rest).dropWhile Char.isDigit = rest := by
  have hdigits : ∀ c ∈ run, c.isDigit = true := fun c hc => Lexeme.isDigit_iff.mpr (hrun c hc)
  rw [List.takeWhile_append_of_pos hdigits, List.dropWhile_append_of_pos hdigits]
  cases rest with
  | nil => exact ⟨List.append_nil run, rfl⟩
  | cons c rest =>
      have hc : ¬ c.isDigit = true := mt Lexeme.isDigit_iff.mp (hrest c rfl)
      rw [List.takeWhile_cons_of_neg hc, List.dropWhile_cons_of_neg hc]
      exact ⟨List.append_nil run, rfl⟩

theorem exists_decimal (h : text ∈ Lexeme.Kind.double.pattern) :
    ∃ d, Decimal.ofText? text = some d := by
  obtain ⟨whole, part, power, rfl, hwhole, hpart, hpower⟩ := Lexeme.mem_double.mp h
  obtain ⟨hne, hwhole⟩ := Lexeme.mem_several_single.mp hwhole
  obtain ⟨-, hpart⟩ := Lexeme.mem_several_single.mp hpart
  have hstop : ∀ c ∈ power.head?, ¬ Lexeme.Digit c := by
    rcases hpower with rfl | hpower
    · nofun
    · obtain ⟨e, s, ds, rfl, rfl | rfl, -⟩ := Lexeme.mem_exponentPattern.mp hpower
      · rintro c ⟨⟩
        decide
      · rintro c ⟨⟩
        decide
  have hpoint : ∀ c ∈ ('.' :: (part ++ power)).head?, ¬ Lexeme.Digit c := by
    rintro c ⟨⟩
    decide
  obtain ⟨htake, hdrop⟩ := dropWhile_digits hwhole hpoint
  obtain ⟨n, hn⟩ := exists_exponent? hpower
  simp only [Decimal.ofText?, htake, hdrop, fraction, dropWhile_digits hpart hstop, hn]
  rw [if_neg (by simp [hne])]
  exact ⟨_, rfl⟩

theorem exists_ofText? (h : text ∈ Lexeme.Kind.double.pattern) : ∃ d, ofText? text = some d := by
  obtain ⟨d, hd⟩ := exists_decimal h
  have hmagnitude : ∃ m, magnitude? text = some m := by
    unfold magnitude?
    dsimp only
    split_ifs
    · exact ⟨_, rfl⟩
    · exact ⟨_, rfl⟩
    · exact ⟨_, congrArg _ hd⟩
  obtain ⟨m, hm⟩ := hmagnitude
  obtain ⟨c, tail, rfl, hc⟩ := Lexeme.starts_of_mem h
  have hdigit : Lexeme.Digit c := hc
  unfold ofText?
  split
  · rename_i heq
    obtain ⟨rfl, -⟩ := List.cons.inj heq
    exact absurd hdigit (by decide)
  · rename_i heq
    obtain ⟨rfl, -⟩ := List.cons.inj heq
    exact absurd hdigit (by decide)
  · exact ⟨_, congrArg _ hm⟩

end Double

end SelectPlanner
