/-
The patterns of lexemes.

A pattern is a language: the set of the texts that a lexeme of its kind can be.  Patterns are built
from classes of characters by choice, concatenation and repetition, and know nothing of how a text
is scanned.  What a text that matches looks like at its front is all that scanning can go by, so
each pattern is also read here one character at a time.
-/
import Mathlib
import SelectPlanner.Token.Lexeme

namespace SelectPlanner.Lexeme

open scoped Computability

/-! ### Classes of characters -/

/-- The characters between lexemes: space, tab, carriage return, line feed, form feed. -/
def Blank (c : Char) : Prop := c = ' ' ∨ c = '\t' ∨ c = '\r' ∨ c = '\n' ∨ c = '\x0c'

/-- The ASCII digits. -/
def Digit (c : Char) : Prop := '0' ≤ c ∧ c ≤ '9'

/-- The ASCII letters and the underscore. -/
def Letter (c : Char) : Prop := 'A' ≤ c ∧ c ≤ 'Z' ∨ 'a' ≤ c ∧ c ≤ 'z' ∨ c = '_'

instance (c : Char) : Decidable (Blank c) :=
  inferInstanceAs (Decidable (c = ' ' ∨ c = '\t' ∨ c = '\r' ∨ c = '\n' ∨ c = '\x0c'))

instance (c : Char) : Decidable (Digit c) :=
  inferInstanceAs (Decidable ('0' ≤ c ∧ c ≤ '9'))

instance (c : Char) : Decidable (Letter c) :=
  inferInstanceAs (Decidable ('A' ≤ c ∧ c ≤ 'Z' ∨ 'a' ≤ c ∧ c ≤ 'z' ∨ c = '_'))

theorem isGap_iff {c : Char} : isGap c = true ↔ Blank c := by
  simp [isGap, Blank, or_assoc]

theorem isDigit_iff {c : Char} : c.isDigit = true ↔ Digit c := by
  simp [Char.isDigit, Digit, Char.le_def]

theorem isWordStart_iff {c : Char} : isWordStart c = true ↔ Letter c := by
  simp [isWordStart, Letter, Char.isAlpha, Char.isUpper, Char.isLower, Char.le_def, or_assoc]

theorem isWordPart_iff {c : Char} : isWordPart c = true ↔ Letter c ∨ Digit c := by
  unfold isWordPart Char.isAlphanum
  rw [Bool.or_right_comm, Bool.or_eq_true, isDigit_iff]
  exact or_congr_left isWordStart_iff

/-! ### Languages -/

/-- The texts of one character of a class. -/
def single (p : Char → Prop) : Language Char := {text | ∃ c, p c ∧ text = [c]}

/-- One text of the language or several in a row. -/
def several (l : Language Char) : Language Char := l * l∗

theorem mem_star_single {p : Char → Prop} {text : List Char} :
    text ∈ (single p)∗ ↔ ∀ c ∈ text, p c := by
  rw [Language.mem_kstar]
  constructor
  · rintro ⟨parts, rfl, hparts⟩ c hc
    obtain ⟨part, hpart, hmem⟩ := List.mem_flatten.mp hc
    obtain ⟨d, hd, rfl⟩ := hparts part hpart
    rwa [List.mem_singleton.mp hmem]
  · intro h
    refine ⟨text.map fun c => [c], by rw [← List.flatMap_def, List.flatMap_singleton'], ?_⟩
    intro part hpart
    obtain ⟨c, hc, rfl⟩ := List.mem_map.mp hpart
    exact ⟨c, h c hc, rfl⟩

theorem mem_single_mul {p : Char → Prop} {l : Language Char} {text : List Char} :
    text ∈ single p * l ↔ ∃ c rest, text = c :: rest ∧ p c ∧ rest ∈ l := by
  rw [Language.mem_mul]
  constructor
  · rintro ⟨-, ⟨c, hc, rfl⟩, rest, hrest, rfl⟩
    exact ⟨c, rest, rfl, hc, hrest⟩
  · rintro ⟨c, rest, rfl, hc, hrest⟩
    exact ⟨[c], ⟨c, hc, rfl⟩, rest, hrest, rfl⟩

theorem mem_several_single {p : Char → Prop} {text : List Char} :
    text ∈ several (single p) ↔ text ≠ [] ∧ ∀ c ∈ text, p c := by
  rw [several, mem_single_mul]
  constructor
  · rintro ⟨c, rest, rfl, hc, hrest⟩
    exact ⟨List.cons_ne_nil _ _, List.forall_mem_cons.mpr ⟨hc, mem_star_single.mp hrest⟩⟩
  · rintro ⟨hne, h⟩
    obtain ⟨c, rest, rfl⟩ := List.exists_cons_of_ne_nil hne
    obtain ⟨hc, hrest⟩ := List.forall_mem_cons.mp h
    exact ⟨c, rest, rfl, hc, mem_star_single.mpr hrest⟩

/-! ### The patterns -/

/-- Digits. -/
def wholePattern : Language Char := several (single Digit)

/-- A letter e in either case, possibly a sign, and digits. -/
def exponentPattern : Language Char :=
  single (fun c => c = 'e' ∨ c = 'E') * ((1 + single fun c => c = '+' ∨ c = '-') * wholePattern)

/-- What stands for one character of a string: a character other than quote and backslash, a
backslash and a character that ends no line, or two quotes. -/
def itemPattern : Language Char :=
  single (fun c => c ≠ '\'' ∧ c ≠ '\\') + single (· = '\\') * single (· ≠ '\n') + {['\'', '\'']}

/-- The texts of the operators, in both spellings of "not equal". -/
def operatorTexts : List (List Char) :=
  [['='], ['!', '='], ['<', '>'], ['<'], ['<', '='], ['>'], ['>', '='], ['+'], ['-'], ['*'], ['/'],
    ['%']]

/-- The texts of the separators. -/
def separatorTexts : List (List Char) := [[','], ['('], [')'], [';']]

/-- The texts that a lexeme of each kind can be. -/
def Kind.pattern : Kind → Language Char
  | gap => several (single Blank)
  | comment => {['-', '-']} * (single (· ≠ '\n'))∗
  | word => single Letter * (single fun c => Letter c ∨ Digit c)∗
  | long => wholePattern
  | double => wholePattern * (single (· = '.') * (wholePattern * (1 + exponentPattern)))
  | quoted => single (· = '\'') * (itemPattern∗ * {['\'']})
  | operator => {text | text ∈ operatorTexts}
  | punctuation => {text | text ∈ separatorTexts}

/-! ### The patterns, one character at a time -/

variable {c : Char} {text tail : List Char}

theorem mem_itemPattern : text ∈ itemPattern ↔
    (∃ c, (c ≠ '\'' ∧ c ≠ '\\') ∧ text = [c]) ∨ (∃ c, c ≠ '\n' ∧ text = ['\\', c]) ∨
      text = ['\'', '\''] := by
  unfold itemPattern
  rw [Language.mem_add, Language.mem_add, or_assoc]
  refine or_congr Iff.rfl (or_congr ?_ Iff.rfl)
  rw [mem_single_mul]
  constructor
  · rintro ⟨d, -, rfl, rfl, e, he, rfl⟩
    exact ⟨e, he, rfl⟩
  · rintro ⟨e, he, rfl⟩
    exact ⟨'\\', [e], rfl, rfl, e, he, rfl⟩

theorem mem_exponentPattern : text ∈ exponentPattern ↔
    ∃ e sign power, text = e :: (sign ++ power) ∧ (e = 'e' ∨ e = 'E') ∧
      (sign = [] ∨ sign = ['+'] ∨ sign = ['-']) ∧ power ≠ [] ∧ ∀ c ∈ power, Digit c := by
  unfold exponentPattern wholePattern
  rw [mem_single_mul]
  constructor
  · rintro ⟨e, rest, rfl, he, hrest⟩
    obtain ⟨sign, hsign, power, hpower, rfl⟩ := Language.mem_mul.mp hrest
    obtain ⟨hne, hdigits⟩ := mem_several_single.mp hpower
    refine ⟨e, sign, power, rfl, he, ?_, hne, hdigits⟩
    rcases hsign with hnone | ⟨s, rfl | rfl, rfl⟩
    · exact Or.inl hnone
    · exact Or.inr (Or.inl rfl)
    · exact Or.inr (Or.inr rfl)
  · rintro ⟨e, sign, power, rfl, he, hsign, hne, hdigits⟩
    refine ⟨e, sign ++ power, rfl, he, Language.append_mem_mul ?_ ?_⟩
    · rcases hsign with rfl | rfl | rfl
      · exact Or.inl rfl
      · exact Or.inr ⟨'+', Or.inl rfl, rfl⟩
      · exact Or.inr ⟨'-', Or.inr rfl, rfl⟩
    · exact mem_several_single.mpr ⟨hne, hdigits⟩

theorem mem_gap : text ∈ Kind.gap.pattern ↔ text ≠ [] ∧ ∀ c ∈ text, Blank c :=
  mem_several_single

theorem mem_long : text ∈ Kind.long.pattern ↔ text ≠ [] ∧ ∀ c ∈ text, Digit c :=
  mem_several_single

theorem mem_word : text ∈ Kind.word.pattern ↔
    ∃ c rest, text = c :: rest ∧ Letter c ∧ ∀ d ∈ rest, Letter d ∨ Digit d := by
  simp only [Kind.pattern, mem_single_mul, mem_star_single]

theorem mem_comment : text ∈ Kind.comment.pattern ↔
    ∃ rest, text = '-' :: '-' :: rest ∧ ∀ d ∈ rest, d ≠ '\n' := by
  unfold Kind.pattern
  rw [Language.mem_mul]
  constructor
  · rintro ⟨-, rfl, rest, hrest, rfl⟩
    exact ⟨rest, rfl, mem_star_single.mp hrest⟩
  · rintro ⟨rest, rfl, hrest⟩
    exact ⟨_, rfl, rest, mem_star_single.mpr hrest, rfl⟩

theorem mem_double : text ∈ Kind.double.pattern ↔
    ∃ whole part power, text = whole ++ '.' :: (part ++ power) ∧ whole ∈ wholePattern ∧
      part ∈ wholePattern ∧ (power = [] ∨ power ∈ exponentPattern) := by
  unfold Kind.pattern
  rw [Language.mem_mul]
  constructor
  · rintro ⟨whole, hwhole, rest, hrest, rfl⟩
    obtain ⟨dot, after, rfl, rfl, hafter⟩ := mem_single_mul.mp hrest
    obtain ⟨part, hpart, power, hpower, rfl⟩ := Language.mem_mul.mp hafter
    exact ⟨whole, part, power, rfl, hwhole, hpart, hpower⟩
  · rintro ⟨whole, part, power, rfl, hwhole, hpart, hpower⟩
    exact ⟨whole, hwhole, _, mem_single_mul.mpr
      ⟨'.', _, rfl, rfl, Language.append_mem_mul hpart hpower⟩, rfl⟩

theorem mem_quoted : text ∈ Kind.quoted.pattern ↔
    ∃ items : List (List Char), text = '\'' :: (items.flatten ++ ['\'']) ∧
      ∀ item ∈ items, item ∈ itemPattern := by
  unfold Kind.pattern
  rw [mem_single_mul]
  constructor
  · rintro ⟨quote, rest, rfl, rfl, hrest⟩
    obtain ⟨inner, hinner, close, rfl, rfl⟩ := Language.mem_mul.mp hrest
    obtain ⟨items, rfl, hitems⟩ := Language.mem_kstar.mp hinner
    exact ⟨items, rfl, hitems⟩
  · rintro ⟨items, rfl, hitems⟩
    exact ⟨_, _, rfl, rfl, Language.append_mem_mul (Language.join_mem_kstar hitems) rfl⟩

theorem mem_operator : text ∈ Kind.operator.pattern ↔ text ∈ operatorTexts := Iff.rfl

theorem mem_punctuation : text ∈ Kind.punctuation.pattern ↔ text ∈ separatorTexts := Iff.rfl

/-! ### What a lexeme starts with -/

/-- The characters that a lexeme of each kind can start with. -/
def Kind.Starts (c : Char) : Kind → Prop
  | gap => Blank c
  | comment => c = '-'
  | word => Letter c
  | long | double => Digit c
  | quoted => c = '\''
  | operator => c ∈ ['=', '!', '<', '>', '+', '-', '*', '/', '%']
  | punctuation => c ∈ [',', '(', ')', ';']

theorem starts_of_mem {kind : Kind} (h : text ∈ kind.pattern) :
    ∃ c tail, text = c :: tail ∧ kind.Starts c := by
  cases kind with
  | gap =>
      obtain ⟨hne, hall⟩ := mem_gap.mp h
      obtain ⟨c, tail, rfl⟩ := List.exists_cons_of_ne_nil hne
      exact ⟨c, tail, rfl, hall c (by simp)⟩
  | comment =>
      obtain ⟨rest, rfl, -⟩ := mem_comment.mp h
      exact ⟨'-', '-' :: rest, rfl, rfl⟩
  | word =>
      obtain ⟨c, rest, rfl, hc, -⟩ := mem_word.mp h
      exact ⟨c, rest, rfl, hc⟩
  | long =>
      obtain ⟨hne, hall⟩ := mem_long.mp h
      obtain ⟨c, tail, rfl⟩ := List.exists_cons_of_ne_nil hne
      exact ⟨c, tail, rfl, hall c (by simp)⟩
  | double =>
      obtain ⟨whole, part, power, rfl, hwhole, -, -⟩ := mem_double.mp h
      obtain ⟨hne, hall⟩ := mem_several_single.mp hwhole
      obtain ⟨c, tail, rfl⟩ := List.exists_cons_of_ne_nil hne
      exact ⟨c, _, rfl, hall c (by simp)⟩
  | quoted =>
      obtain ⟨items, rfl, -⟩ := mem_quoted.mp h
      exact ⟨'\'', _, rfl, rfl⟩
  | operator =>
      have firsts : ∀ t ∈ operatorTexts, ∃ c tail, t = c :: tail ∧ Kind.operator.Starts c := by
        simp [operatorTexts, Kind.Starts]
      exact firsts text h
  | punctuation =>
      have firsts : ∀ t ∈ separatorTexts, ∃ c tail, t = c :: tail ∧ Kind.punctuation.Starts c := by
        simp [separatorTexts, Kind.Starts]
      exact firsts text h

theorem ne_nil_of_mem {kind : Kind} (h : text ∈ kind.pattern) : text ≠ [] := by
  obtain ⟨c, tail, rfl, -⟩ := starts_of_mem h
  exact List.cons_ne_nil _ _

end SelectPlanner.Lexeme
