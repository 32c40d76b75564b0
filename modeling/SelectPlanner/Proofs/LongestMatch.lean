/-
Scanning takes the longest text that any pattern matches.

A pattern says nothing of where a match has to end; `Longest` does, by comparing all matches at the
front of a text.  The first character leaves one kind to compare, or two: digits may go on with a
fraction, and a hyphen may start a comment.  Within a kind a match is a run of characters that
cannot be longer than the run that is there.

Only a string is not settled in this way.  Scanning never gives up a string that it has entered,
though a shorter one may match in front: behind `'a'` in `'a''b` the two quotes count as one
character, and the string does not close.  So scanning may fail at a quote where something matches,
and `scan_eq_error` says no more than that for quotes.
-/
import Mathlib
import SelectPlanner.Proofs.LexemePatterns

namespace SelectPlanner.Lexeme

variable {c : Char} {cs text tail rest seen : List Char} {kind : Kind}

/-- The longest text at the front of `cs` that a pattern matches. -/
structure Longest (cs : List Char) (l : Lexeme) : Prop where
  matched : l.text ∈ l.kind.pattern
  front : l.text <+: cs
  longest : ∀ kind text, text ∈ Kind.pattern kind → text <+: cs → text.length ≤ l.text.length

/-! ### The first character settles the kind

All but its last step: a number may have a fraction, and a hyphen may start a comment.
-/

/-- The kinds that cannot be told apart by their first characters count as one. -/
def Kind.family : Kind → Kind
  | comment => operator
  | double => long
  | kind => kind

/-- A family has one kind, or an operator and a comment, or the two kinds of number. -/
theorem Kind.eq_of_family {kind' : Kind} (h : kind.family = kind'.family) :
    kind = kind' ∨ kind = .comment ∧ kind' = .operator ∨ kind = .operator ∧ kind' = .comment ∨
      kind = .double ∧ kind' = .long ∨ kind = .long ∧ kind' = .double := by
  revert h
  cases kind <;> cases kind' <;> decide

theorem Kind.eq_of_family_alone {alone : Kind} (halone : alone ≠ .operator ∧ alone ≠ .long)
    (h : kind.family = alone) : kind = alone := by
  revert halone h
  cases kind <;> cases alone <;> decide

theorem Kind.of_family_operator (h : kind.family = .operator) :
    kind = .operator ∨ kind = .comment := by
  revert h
  cases kind <;> decide

theorem Kind.of_family_long (h : kind.family = .long) : kind = .long ∨ kind = .double := by
  revert h
  cases kind <;> decide

/-- The family of what starts with a character. -/
def familyOf (c : Char) : Kind :=
  if isGap c then .gap
  else if isWordStart c then .word
  else if c.isDigit then .long
  else if c = '\'' then .quoted
  else if c ∈ punctuation then .punctuation
  else .operator

theorem not_blank_of_letter (h : Letter c) : ¬ Blank c := by
  intro hblank
  rcases hblank with rfl | rfl | rfl | rfl | rfl <;> exact absurd h (by decide)

theorem not_blank_of_digit (h : Digit c) : ¬ Blank c := by
  intro hblank
  rcases hblank with rfl | rfl | rfl | rfl | rfl <;> exact absurd h (by decide)

theorem not_letter_of_digit (h : Digit c) : ¬ Letter c := by
  obtain ⟨hlow, hhigh⟩ := h
  rw [Char.le_def, UInt32.le_iff_toNat_le] at hlow hhigh
  change 48 ≤ c.val.toNat at hlow
  change c.val.toNat ≤ 57 at hhigh
  rintro (⟨h, -⟩ | ⟨h, -⟩ | rfl)
  · rw [Char.le_def, UInt32.le_iff_toNat_le] at h
    change 65 ≤ c.val.toNat at h
    omega
  · rw [Char.le_def, UInt32.le_iff_toNat_le] at h
    change 97 ≤ c.val.toNat at h
    omega
  · exact absurd hhigh (by decide)

theorem family_of_starts (h : kind.Starts c) : kind.family = familyOf c := by
  unfold familyOf
  cases kind with
  | gap => rw [if_pos (isGap_iff.mpr h)]; rfl
  | word =>
      rw [if_neg (mt isGap_iff.mp (not_blank_of_letter h)), if_pos (isWordStart_iff.mpr h)]
      rfl
  | long | double =>
      rw [if_neg (mt isGap_iff.mp (not_blank_of_digit h)),
        if_neg (mt isWordStart_iff.mp (not_letter_of_digit h)), if_pos (isDigit_iff.mpr h)]
      rfl
  | comment | quoted =>
      obtain rfl := h
      decide
  | operator =>
      simp only [Kind.Starts, List.mem_cons, List.not_mem_nil, or_false] at h
      rcases h with rfl | rfl | rfl | rfl | rfl | rfl | rfl | rfl | rfl <;> decide
  | punctuation =>
      simp only [Kind.Starts, List.mem_cons, List.not_mem_nil, or_false] at h
      rcases h with rfl | rfl | rfl | rfl <;> decide

/-- What matches at the front of a text starts with its first character, and so has its family. -/
theorem candidate (h : text ∈ kind.pattern) (hfront : text <+: c :: cs) :
    kind.family = familyOf c ∧ ∃ tail, text = c :: tail ∧ tail <+: cs := by
  obtain ⟨d, tail, rfl, hstarts⟩ := starts_of_mem h
  obtain ⟨rfl, htail⟩ := List.cons_prefix_cons.mp hfront
  exact ⟨family_of_starts hstarts, tail, rfl, htail⟩

/-- No text has two kinds. -/
theorem kind_unique {kind' : Kind} (h : text ∈ kind.pattern) (h' : text ∈ kind'.pattern) :
    kind = kind' := by
  have noFraction : ∀ {t}, t ∈ Kind.double.pattern → t ∉ Kind.long.pattern := by
    intro t hdouble hlong
    obtain ⟨whole, part, power, rfl, -, -, -⟩ := mem_double.mp hdouble
    exact absurd ((mem_long.mp hlong).2 '.' (by simp)) (by decide)
  have noComment : ∀ {t}, t ∈ Kind.comment.pattern → t ∉ Kind.operator.pattern := by
    intro t hcomment hoperator
    obtain ⟨rest, rfl, -⟩ := mem_comment.mp hcomment
    simp [mem_operator, operatorTexts] at hoperator
  obtain ⟨c, tail, rfl, hstarts⟩ := starts_of_mem h
  obtain ⟨d, tail', heq, hstarts'⟩ := starts_of_mem h'
  obtain ⟨rfl, rfl⟩ := List.cons.inj heq
  have hfamily := (family_of_starts hstarts).trans (family_of_starts hstarts').symm
  rcases Kind.eq_of_family hfamily with
    rfl | ⟨rfl, rfl⟩ | ⟨rfl, rfl⟩ | ⟨rfl, rfl⟩ | ⟨rfl, rfl⟩
  · rfl
  · exact absurd h' (noComment h)
  · exact absurd h (noComment h')
  · exact absurd h' (noFraction h)
  · exact absurd h (noFraction h')

theorem Longest.unique {l l' : Lexeme} (h : Longest cs l) (h' : Longest cs l') : l = l' := by
  obtain ⟨kind, text⟩ := l
  obtain ⟨kind', text'⟩ := l'
  have hlength : text.length = text'.length :=
    Nat.le_antisymm (h'.longest _ _ h.matched h.front) (h.longest _ _ h'.matched h'.front)
  obtain rfl : text = text' := (List.prefix_of_prefix_length_le h.front h'.front
    (Nat.le_of_eq hlength)).eq_of_length hlength
  obtain rfl : kind = kind' := kind_unique h.matched h'.matched
  rfl

/-! ### Runs of one class -/

theorem takeWhile_front (p : Char → Bool) (cs : List Char) : cs.takeWhile p <+: cs :=
  ⟨cs.dropWhile p, List.takeWhile_append_dropWhile⟩

theorem length_le_takeWhile {p : Char → Bool} {run : List Char} (hrun : ∀ c ∈ run, p c = true)
    (h : run <+: cs) : run.length ≤ (cs.takeWhile p).length := by
  obtain ⟨rest, rfl⟩ := h
  rw [List.takeWhile_append_of_pos hrun, List.length_append]
  omega

theorem longest_gap (hc : isGap c = true) : Longest (c :: cs) ⟨.gap, c :: cs.takeWhile isGap⟩ := by
  refine ⟨?_, List.cons_prefix_cons.mpr ⟨rfl, takeWhile_front _ _⟩, ?_⟩
  · refine mem_gap.mpr ⟨List.cons_ne_nil _ _, List.forall_mem_cons.mpr ⟨isGap_iff.mp hc, ?_⟩⟩
    intro d hd
    exact isGap_iff.mp (List.mem_takeWhile_imp hd)
  · intro kind text h hfront
    obtain ⟨hfamily, tail, rfl, htail⟩ := candidate h hfront
    rw [familyOf, if_pos hc] at hfamily
    obtain rfl := Kind.eq_of_family_alone (by decide) hfamily
    have hall := (List.forall_mem_cons.mp (mem_gap.mp h).2).2
    exact Nat.succ_le_succ (length_le_takeWhile (fun d hd => isGap_iff.mpr (hall d hd)) htail)

theorem longest_word (hgap : ¬ isGap c = true) (hc : isWordStart c = true) :
    Longest (c :: cs) ⟨.word, c :: cs.takeWhile isWordPart⟩ := by
  refine ⟨?_, List.cons_prefix_cons.mpr ⟨rfl, takeWhile_front _ _⟩, ?_⟩
  · refine mem_word.mpr ⟨c, _, rfl, isWordStart_iff.mp hc, ?_⟩
    intro d hd
    exact isWordPart_iff.mp (List.mem_takeWhile_imp hd)
  · intro kind text h hfront
    obtain ⟨hfamily, tail, rfl, htail⟩ := candidate h hfront
    rw [familyOf, if_neg hgap, if_pos hc] at hfamily
    obtain rfl := Kind.eq_of_family_alone (by decide) hfamily
    obtain ⟨d, parts, heq, -, hparts⟩ := mem_word.mp h
    obtain ⟨rfl, rfl⟩ := List.cons.inj heq
    have hword : ∀ d ∈ tail, isWordPart d = true := fun d hd => isWordPart_iff.mpr (hparts d hd)
    exact Nat.succ_le_succ (length_le_takeWhile hword htail)

/-! ### Numbers -/

theorem digits_append {whole after : List Char} (hwhole : ∀ d ∈ whole, Digit d) :
    digits (whole ++ after) = whole ++ digits after :=
  List.takeWhile_append_of_pos fun d hd => isDigit_iff.mpr (hwhole d hd)

theorem digits_cons (hc : ¬ Digit c) : digits (c :: cs) = [] :=
  List.takeWhile_cons_of_neg (mt isDigit_iff.mp hc)

/-- A text is the digits at its front and something that starts with no digit. -/
theorem exists_digits_append (cs : List Char) :
    ∃ whole after, cs = whole ++ after ∧ (∀ d ∈ whole, Digit d) ∧ digits after = [] := by
  refine ⟨digits cs, cs.dropWhile Char.isDigit, ?_, ?_, ?_⟩
  · exact List.takeWhile_append_dropWhile.symm
  · intro d hd
    exact isDigit_iff.mp (List.mem_takeWhile_imp hd)
  · unfold digits
    rw [List.takeWhile_eq_nil_iff]
    exact List.dropWhile_get_zero_not _ _

theorem fraction_dot {part after : List Char} (hne : part ≠ []) (hpart : ∀ d ∈ part, Digit d) :
    fraction ('.' :: (part ++ after)) = '.' :: (part ++ digits after) := by
  rw [fraction, digits_append hpart, if_pos ⟨rfl, by simp [hne]⟩]

theorem fraction_cases (cs : List Char) : fraction cs = [] ∨
    ∃ part after, cs = '.' :: (part ++ after) ∧ part ≠ [] ∧ (∀ d ∈ part, Digit d) ∧
      digits after = [] := by
  cases cs with
  | nil => exact Or.inl rfl
  | cons c cs =>
      by_cases h : c = '.' ∧ digits cs ≠ []
      · obtain ⟨rfl, hne⟩ := h
        obtain ⟨part, after, rfl, hpart, hafter⟩ := exists_digits_append cs
        refine Or.inr ⟨part, after, rfl, ?_, hpart, hafter⟩
        rw [digits_append hpart, hafter, List.append_nil] at hne
        exact hne
      · exact Or.inl (if_neg h)

theorem sign_cases (cs : List Char) :
    (sign cs = [] ∨ sign cs = ['+'] ∨ sign cs = ['-']) ∧
      sign cs ++ cs.drop (sign cs).length = cs := by
  cases cs with
  | nil => exact ⟨Or.inl rfl, rfl⟩
  | cons c cs =>
      by_cases h : c = '+' ∨ c = '-'
      · rw [sign, if_pos h]
        refine ⟨?_, rfl⟩
        rcases h with rfl | rfl
        · exact Or.inr (Or.inl rfl)
        · exact Or.inr (Or.inr rfl)
      · rw [sign, if_neg h]
        exact ⟨Or.inl rfl, rfl⟩

/-- The sign of an exponent is told from its digits. -/
theorem sign_append {s power after : List Char} (hs : s = [] ∨ s = ['+'] ∨ s = ['-'])
    (hne : power ≠ []) (hpower : ∀ d ∈ power, Digit d) : sign (s ++ (power ++ after)) = s := by
  rcases hs with rfl | rfl | rfl
  · obtain ⟨d, power, rfl⟩ := List.exists_cons_of_ne_nil hne
    have hd := hpower d (by simp)
    have hnot : ¬ (d = '+' ∨ d = '-') := by
      rintro (rfl | rfl) <;> exact absurd hd (by decide)
    exact if_neg hnot
  · rfl
  · rfl

theorem exponent_append {e : Char} {s power after : List Char} (he : e = 'e' ∨ e = 'E')
    (hs : s = [] ∨ s = ['+'] ∨ s = ['-']) (hne : power ≠ []) (hpower : ∀ d ∈ power, Digit d) :
    exponent (e :: (s ++ (power ++ after))) = e :: (s ++ (power ++ digits after)) := by
  simp only [exponent, sign_append hs hne hpower, List.drop_left, digits_append hpower]
  exact if_pos ⟨he, by simp [hne]⟩

theorem exponent_cases (cs : List Char) : exponent cs = [] ∨
    ∃ e s power after, cs = e :: (s ++ (power ++ after)) ∧ (e = 'e' ∨ e = 'E') ∧
      (s = [] ∨ s = ['+'] ∨ s = ['-']) ∧ power ≠ [] ∧ (∀ d ∈ power, Digit d) ∧
      digits after = [] := by
  cases cs with
  | nil => exact Or.inl rfl
  | cons e cs =>
      by_cases h : (e = 'e' ∨ e = 'E') ∧ digits (cs.drop (sign cs).length) ≠ []
      · obtain ⟨he, hne⟩ := h
        obtain ⟨hs, hsplit⟩ := sign_cases cs
        obtain ⟨power, after, hdrop, hpower, hafter⟩ :=
          exists_digits_append (cs.drop (sign cs).length)
        refine Or.inr ⟨e, sign cs, power, after, ?_, he, hs, ?_, hpower, hafter⟩
        · rw [← hdrop, hsplit]
        · rw [hdrop, digits_append hpower, hafter, List.append_nil] at hne
          exact hne
      · exact Or.inl (if_neg h)

theorem exponent_matched (cs : List Char) :
    (exponent cs = [] ∨ exponent cs ∈ exponentPattern) ∧ exponent cs <+: cs := by
  rcases exponent_cases cs with h | ⟨e, s, power, after, rfl, he, hs, hne, hpower, hafter⟩
  · rw [h]
    exact ⟨Or.inl rfl, List.nil_prefix⟩
  · rw [exponent_append he hs hne hpower, hafter, List.append_nil]
    refine ⟨Or.inr (mem_exponentPattern.mpr ⟨e, s, power, rfl, he, hs, hne, hpower⟩), after, ?_⟩
    simp

theorem length_le_exponent (h : text ∈ exponentPattern) (hfront : text <+: cs) :
    text.length ≤ (exponent cs).length := by
  obtain ⟨e, s, power, rfl, he, hs, hne, hpower⟩ := mem_exponentPattern.mp h
  obtain ⟨rest, rfl⟩ := hfront
  rw [List.cons_append, List.append_assoc, exponent_append he hs hne hpower]
  simp only [List.length_cons, List.length_append]
  omega

/-- What a number is after its first digit, by the digits at its front. -/
theorem numberTail_append {whole after : List Char} (hwhole : ∀ d ∈ whole, Digit d)
    (hafter : digits after = []) : numberTail (whole ++ after) =
      if fraction after = [] then (.long, whole)
      else (.double,
        whole ++ fraction after ++ exponent (after.drop (fraction after).length)) := by
  have hdigits : digits (whole ++ after) = whole := by
    rw [digits_append hwhole, hafter, List.append_nil]
  simp only [numberTail, hdigits, List.drop_left]

theorem numberTail_fraction {whole part after : List Char} (hwhole : ∀ d ∈ whole, Digit d)
    (hne : part ≠ []) (hpart : ∀ d ∈ part, Digit d) (hafter : digits after = []) :
    numberTail (whole ++ '.' :: (part ++ after)) =
      (.double, whole ++ '.' :: (part ++ exponent after)) := by
  rw [numberTail_append hwhole (digits_cons (by decide)), fraction_dot hne hpart, hafter,
    List.append_nil, if_neg (List.cons_ne_nil _ _)]
  simp

/-- Digits at the front do not reach beyond the digits that are there. -/
theorem length_le_of_long {run after : List Char} (hrun : ∀ d ∈ run, Digit d)
    (hafter : digits after = []) (h : text ∈ Kind.long.pattern) (hfront : text <+: run ++ after) :
    text.length ≤ run.length := by
  have hlength : text.length ≤ (digits (run ++ after)).length :=
    length_le_takeWhile (fun d hd => isDigit_iff.mpr ((mem_long.mp h).2 d hd)) hfront
  rwa [digits_append hrun, hafter, List.append_nil] at hlength

/-- A number with a fraction has its point behind all the digits that are there. -/
theorem point_of_double {run after : List Char} (hrun : ∀ d ∈ run, Digit d)
    (hafter : digits after = []) (h : text ∈ Kind.double.pattern) (hfront : text <+: run ++ after) :
    ∃ part power rest, text = run ++ '.' :: (part ++ power) ∧
      after = '.' :: (part ++ (power ++ rest)) ∧ part ≠ [] ∧ (∀ d ∈ part, Digit d) ∧
      (power = [] ∨ power ∈ exponentPattern) := by
  obtain ⟨whole, part, power, rfl, hwhole, hpart, hpower⟩ := mem_double.mp h
  obtain ⟨-, hwhole⟩ := mem_several_single.mp hwhole
  obtain ⟨hne, hpart⟩ := mem_several_single.mp hpart
  obtain ⟨rest, heq⟩ := hfront
  rw [List.append_assoc, List.cons_append, List.append_assoc] at heq
  have hsame : digits (whole ++ '.' :: (part ++ (power ++ rest))) = digits (run ++ after) := by
    rw [heq]
  rw [digits_append hwhole, digits_cons (by decide), digits_append hrun, hafter,
    List.append_nil, List.append_nil] at hsame
  subst hsame
  exact ⟨part, power, rest, rfl, (List.append_cancel_left heq).symm, hne, hpart, hpower⟩

/-- A fraction and an exponent at the front do not reach beyond those that are there. -/
theorem length_le_of_fraction {part after part' power : List Char} (hpart : ∀ d ∈ part, Digit d)
    (hafter : digits after = []) (hpart' : ∀ d ∈ part', Digit d)
    (hpower : power = [] ∨ power ∈ exponentPattern) (hfront : part' ++ power <+: part ++ after) :
    (part' ++ power).length ≤ (part ++ exponent after).length := by
  obtain ⟨rest, heq⟩ := hfront
  rw [List.append_assoc] at heq
  have hdigits : part = part' ++ digits (power ++ rest) := by
    rw [← digits_append hpart', heq, digits_append hpart, hafter, List.append_nil]
  rcases hpower with rfl | hpower
  · rw [hdigits]
    simp only [List.length_append, List.length_nil]
    omega
  · -- The exponent starts with no digit, so the fractions are the same.
    obtain ⟨e, s, ds, rfl, he, -⟩ := mem_exponentPattern.mp hpower
    have hstop : digits (e :: (s ++ ds) ++ rest) = [] := by
      rcases he with rfl | rfl
      · exact digits_cons (by decide)
      · exact digits_cons (by decide)
    rw [hstop, List.append_nil] at hdigits
    subst hdigits
    have hlength := length_le_exponent hpower ⟨rest, List.append_cancel_left heq⟩
    rw [List.length_append, List.length_append]
    omega

theorem longest_number (hgap : ¬ isGap c = true) (hword : ¬ isWordStart c = true)
    (hc : c.isDigit = true) : Longest (c :: cs) ⟨(numberTail cs).1, c :: (numberTail cs).2⟩ := by
  have kinds : ∀ {kind text}, text ∈ Kind.pattern kind → text <+: c :: cs →
      kind = .long ∨ kind = .double := by
    intro kind text h hfront
    obtain ⟨hfamily, -⟩ := candidate h hfront
    rw [familyOf, if_neg hgap, if_neg hword, if_pos hc] at hfamily
    exact Kind.of_family_long hfamily
  obtain ⟨whole, after, rfl, hwhole, hafter⟩ := exists_digits_append cs
  have hrun : ∀ d ∈ c :: whole, Digit d := List.forall_mem_cons.mpr ⟨isDigit_iff.mp hc, hwhole⟩
  rcases fraction_cases after with hnone | ⟨part, more, rfl, hne, hpart, hmore⟩
  · rw [numberTail_append hwhole hafter, if_pos hnone]
    refine ⟨mem_long.mpr ⟨List.cons_ne_nil _ _, hrun⟩, ⟨after, rfl⟩, ?_⟩
    intro kind text h hfront
    rcases kinds h hfront with rfl | rfl
    · exact length_le_of_long hrun hafter h hfront
    · obtain ⟨part, power, rest, -, rfl, hne, hpart, -⟩ :=
        point_of_double hrun hafter h hfront
      rw [fraction_dot hne hpart] at hnone
      cases hnone
  · obtain ⟨hexponent, rest, hrest⟩ := exponent_matched more
    have hpoint : digits ('.' :: (part ++ more)) = [] := digits_cons (by decide)
    rw [numberTail_fraction hwhole hne hpart hmore]
    refine ⟨?_, ⟨rest, by simp [hrest]⟩, ?_⟩
    · exact mem_double.mpr ⟨c :: whole, part, exponent more, rfl,
        mem_several_single.mpr ⟨List.cons_ne_nil _ _, hrun⟩,
        mem_several_single.mpr ⟨hne, hpart⟩, hexponent⟩
    · intro kind text h hfront
      have hall : (c :: (whole ++ '.' :: (part ++ exponent more))).length =
          (c :: whole).length + 1 + (part ++ exponent more).length := by
        simp only [List.length_cons, List.length_append]
        omega
      show text.length ≤ (c :: (whole ++ '.' :: (part ++ exponent more))).length
      rw [hall]
      rcases kinds h hfront with rfl | rfl
      · have hlength := length_le_of_long hrun hpoint h hfront
        omega
      · obtain ⟨part', power, rest, rfl, heq, -, hpart', hpower⟩ :=
          point_of_double hrun hpoint h hfront
        have hsplit : part' ++ power <+: part ++ more :=
          ⟨rest, by rw [List.append_assoc]; exact (List.cons.inj heq).2.symm⟩
        have hlength := length_le_of_fraction hpart hmore hpart' hpower hsplit
        simp only [List.length_append, List.length_cons] at hlength ⊢
        omega

/-! ### Strings -/

theorem prepend_prepend (front back : List Char) (r : Except (List Char) (List Char)) :
    prepend front (prepend back r) = prepend (front ++ back) r := by
  cases r with
  | ok tail => simp [prepend]
  | error seen => simp [prepend]

theorem quotedTail_item {item : List Char} (h : item ∈ itemPattern) (cs : List Char) :
    quotedTail (item ++ cs) = prepend item (quotedTail cs) := by
  rcases mem_itemPattern.mp h with ⟨c, ⟨hquote, hslash⟩, rfl⟩ | ⟨c, hc, rfl⟩ | rfl
  · rw [List.singleton_append, quotedTail.eq_def]
    split <;> simp_all
  · show quotedTail ('\\' :: c :: cs) = _
    rw [quotedTail, if_neg hc]
  · show quotedTail ('\'' :: '\'' :: cs) = _
    rw [quotedTail]

theorem quotedTail_items {items : List (List Char)} (h : ∀ item ∈ items, item ∈ itemPattern)
    (cs : List Char) :
    quotedTail (items.flatten ++ cs) = prepend items.flatten (quotedTail cs) := by
  induction items with
  | nil =>
      show quotedTail cs = prepend [] (quotedTail cs)
      cases quotedTail cs <;> rfl
  | cons item items ih =>
      obtain ⟨hitem, hitems⟩ := List.forall_mem_cons.mp h
      rw [List.flatten_cons, List.append_assoc, quotedTail_item hitem, ih hitems, prepend_prepend]

theorem quotedTail_close (h : rest.head? ≠ some '\'') : quotedTail ('\'' :: rest) = .ok ['\''] := by
  rw [quotedTail]
  rintro more rfl
  exact h rfl

/-- A string ends at the first quote behind its items that no quote follows. -/
theorem quotedTail_closed {items : List (List Char)} (h : ∀ item ∈ items, item ∈ itemPattern)
    (hrest : rest.head? ≠ some '\'') :
    quotedTail (items.flatten ++ ['\''] ++ rest) = .ok (items.flatten ++ ['\'']) := by
  rw [List.append_assoc, quotedTail_items h, List.singleton_append, quotedTail_close hrest]
  rfl

theorem prepend_eq_error {front : List Char} {r : Except (List Char) (List Char)}
    (h : prepend front r = .error seen) : ∃ looked, r = .error looked ∧ seen = front ++ looked := by
  cases r with
  | ok back => cases h
  | error looked => exact ⟨looked, rfl, (Except.error.inj h).symm⟩

theorem prepend_eq_ok {front : List Char} {r : Except (List Char) (List Char)}
    (h : prepend front r = .ok tail) : ∃ back, r = .ok back ∧ tail = front ++ back := by
  cases r with
  | ok back => exact ⟨back, rfl, (Except.ok.inj h).symm⟩
  | error seen => cases h

/-- A string cannot go on here: the text is over, or a backslash is followed by a line end or by
nothing. -/
inductive Blocked : List Char → Prop where
  | ended : Blocked []
  | backslash : Blocked ['\\']
  | newline (more : List Char) : Blocked ('\\' :: '\n' :: more)

theorem quotedTail_blocked (h : Blocked cs) : quotedTail cs = .error [] := by
  cases h <;> rfl

/-- Every text is the items of a string up to the end of it or to where it cannot go on. -/
theorem exists_items (cs : List Char) :
    ∃ (items : List (List Char)) (back : List Char), (∀ item ∈ items, item ∈ itemPattern) ∧
      cs = items.flatten ++ back ∧
        (Blocked back ∨ ∃ rest, back = '\'' :: rest ∧ rest.head? ≠ some '\'') := by
  -- Along the scanner: it adds an item to what comes behind, or stops.
  induction cs using quotedTail.induct with
  | case1 => exact ⟨[], [], nofun, rfl, Or.inl .ended⟩
  | case2 cs ih =>
      obtain ⟨items, back, hitems, rfl, hback⟩ := ih
      have hitem : ['\'', '\''] ∈ itemPattern := mem_itemPattern.mpr (Or.inr (Or.inr rfl))
      exact ⟨['\'', '\''] :: items, back, List.forall_mem_cons.mpr ⟨hitem, hitems⟩, rfl, hback⟩
  | case3 cs hcs =>
      refine ⟨[], '\'' :: cs, nofun, rfl, Or.inr ⟨cs, rfl, ?_⟩⟩
      intro hhead
      obtain ⟨more, rfl⟩ := List.head?_eq_some_iff.mp hhead
      exact hcs more rfl
  | case4 cs => exact ⟨[], '\\' :: '\n' :: cs, nofun, rfl, Or.inl (.newline cs)⟩
  | case5 c cs hc ih =>
      obtain ⟨items, back, hitems, rfl, hback⟩ := ih
      have hitem : ['\\', c] ∈ itemPattern := mem_itemPattern.mpr (Or.inr (Or.inl ⟨c, hc, rfl⟩))
      exact ⟨['\\', c] :: items, back, List.forall_mem_cons.mpr ⟨hitem, hitems⟩, rfl, hback⟩
  | case6 => exact ⟨[], ['\\'], nofun, rfl, Or.inl .backslash⟩
  | case7 c cs _ hquote hescape hslash ih =>
      obtain ⟨items, back, hitems, rfl, hback⟩ := ih
      have hplain : c ≠ '\\' := by
        rintro rfl
        generalize hmore : items.flatten ++ back = more at hescape hslash
        cases more with
        | nil => exact hslash rfl rfl
        | cons d more => exact hescape d more rfl rfl
      have hitem : [c] ∈ itemPattern := mem_itemPattern.mpr (Or.inl ⟨c, ⟨hquote, hplain⟩, rfl⟩)
      exact ⟨[c] :: items, back, List.forall_mem_cons.mpr ⟨hitem, hitems⟩, rfl, hback⟩

/-- What closes a string at the front of `cs`: items up to a quote that no quote follows. -/
def Closing (cs tail : List Char) : Prop :=
  ∃ (items : List (List Char)) (rest : List Char), (∀ item ∈ items, item ∈ itemPattern) ∧
    tail = items.flatten ++ ['\''] ∧ cs = tail ++ rest ∧ rest.head? ≠ some '\''

theorem closing_of_quotedTail (h : quotedTail cs = .ok tail) : Closing cs tail := by
  obtain ⟨items, back, hitems, rfl, hblocked | ⟨rest, rfl, hrest⟩⟩ := exists_items cs
  · rw [quotedTail_items hitems, quotedTail_blocked hblocked] at h
    cases h
  · rw [quotedTail_items hitems, quotedTail_close hrest] at h
    obtain rfl := Except.ok.inj h
    exact ⟨items, rest, hitems, rfl, by simp, hrest⟩

/-- A string that does not close is looked at item by item, up to where it cannot go on. -/
theorem blocked_of_quotedTail (h : quotedTail cs = .error seen) :
    ∃ (items : List (List Char)) (back : List Char), (∀ item ∈ items, item ∈ itemPattern) ∧
      seen = items.flatten ∧ cs = seen ++ back ∧ Blocked back := by
  obtain ⟨items, back, hitems, rfl, hblocked | ⟨rest, rfl, hrest⟩⟩ := exists_items cs
  · rw [quotedTail_items hitems, quotedTail_blocked hblocked] at h
    obtain rfl : items.flatten ++ [] = seen := Except.error.inj h
    exact ⟨items, back, hitems, List.append_nil _, by rw [List.append_nil], hblocked⟩
  · rw [quotedTail_items hitems, quotedTail_close hrest] at h
    cases h

theorem ne_nil_of_quotedTail (h : quotedTail cs = .ok tail) : tail ≠ [] := by
  obtain ⟨items, rest, -, rfl, -, -⟩ := closing_of_quotedTail h
  simp

/-- What matches behind a quote is a string. -/
theorem quoted_candidate (h : text ∈ kind.pattern) (hfront : text <+: '\'' :: cs) :
    kind = .quoted ∧ ∃ (items : List (List Char)) (rest : List Char),
      (∀ item ∈ items, item ∈ itemPattern) ∧ text = '\'' :: (items.flatten ++ ['\'']) ∧
        cs = items.flatten ++ '\'' :: rest := by
  obtain ⟨hfamily, -⟩ := candidate h hfront
  obtain rfl : kind = .quoted := Kind.eq_of_family_alone (by decide) hfamily
  obtain ⟨items, rfl, hitems⟩ := mem_quoted.mp h
  obtain ⟨rest, hrest⟩ := hfront
  refine ⟨rfl, items, rest, hitems, rfl, ?_⟩
  simpa using (List.cons.inj hrest).2.symm

theorem longest_quoted (h : quotedTail cs = .ok tail) :
    Longest ('\'' :: cs) ⟨.quoted, '\'' :: tail⟩ := by
  refine ⟨?_, ?_, ?_⟩
  · obtain ⟨items, rest, hitems, rfl, -, -⟩ := closing_of_quotedTail h
    exact mem_quoted.mpr ⟨items, rfl, hitems⟩
  · obtain ⟨items, rest, -, -, rfl, -⟩ := closing_of_quotedTail h
    exact ⟨rest, rfl⟩
  · intro kind text hmatch hfront
    obtain ⟨rfl, items, rest, hitems, rfl, rfl⟩ := quoted_candidate hmatch hfront
    rw [quotedTail_items hitems] at h
    obtain ⟨back, hback, rfl⟩ := prepend_eq_ok h
    have hpos := List.length_pos_iff.mpr (ne_nil_of_quotedTail hback)
    simp only [List.length_cons, List.length_append, List.length_nil]
    omega

/-! ### Comments and symbols -/

theorem longest_comment :
    Longest ('-' :: '-' :: cs) ⟨.comment, '-' :: '-' :: cs.takeWhile (· != '\n')⟩ := by
  refine ⟨?_, ?_, ?_⟩
  · refine mem_comment.mpr ⟨_, rfl, ?_⟩
    intro d hd
    simpa using List.mem_takeWhile_imp hd
  · exact List.cons_prefix_cons.mpr ⟨rfl, List.cons_prefix_cons.mpr ⟨rfl, takeWhile_front _ _⟩⟩
  · intro kind text h hfront
    obtain ⟨hfamily, -⟩ := candidate h hfront
    rcases Kind.of_family_operator hfamily with rfl | rfl
    · have short : ∀ t ∈ operatorTexts, t.length ≤ 2 := by decide
      have hlength := short text h
      simp only [List.length_cons]
      omega
    · obtain ⟨rest, rfl, hrest⟩ := mem_comment.mp h
      have hline := (List.cons_prefix_cons.mp (List.cons_prefix_cons.mp hfront).2).2
      refine Nat.succ_le_succ (Nat.succ_le_succ (length_le_takeWhile ?_ hline))
      intro d hd
      simpa using hrest d hd

theorem longest_punctuation (hc : c ∈ punctuation) : Longest (c :: cs) ⟨.punctuation, [c]⟩ := by
  refine ⟨?_, ⟨cs, rfl⟩, ?_⟩
  · refine mem_punctuation.mpr ?_
    simpa [separatorTexts, punctuation] using hc
  · intro kind text h hfront
    obtain ⟨hfamily, -⟩ := candidate h hfront
    have hc : familyOf c = .punctuation := by
      simp only [punctuation, List.mem_cons, List.not_mem_nil, or_false] at hc
      rcases hc with rfl | rfl | rfl | rfl <;> rfl
    obtain rfl := Kind.eq_of_family_alone (by decide) (hfamily.trans hc)
    have short : ∀ t ∈ separatorTexts, t.length ≤ 1 := by decide
    exact short text h

theorem cons_mem_operatorTexts : c :: tail ∈ operatorTexts ↔
    tail = [] ∧ c ∈ operators ∨ ∃ d, tail = [d] ∧ (c, d) ∈ longOperators := by
  cases tail with
  | nil => simp [operatorTexts, operators]
  | cons d tail =>
      cases tail with
      | nil => simp [operatorTexts, longOperators]
      | cons e tail => simp [operatorTexts]

theorem operator_candidate (hc : familyOf c = .operator) (hline : ¬ (c = '-' ∧ cs.head? = some '-'))
    (h : text ∈ kind.pattern) (hfront : text <+: c :: cs) :
    kind = .operator ∧ ∃ tail, text = c :: tail ∧ tail <+: cs ∧ c :: tail ∈ operatorTexts := by
  obtain ⟨hfamily, tail, rfl, htail⟩ := candidate h hfront
  rw [hc] at hfamily
  rcases Kind.of_family_operator hfamily with rfl | rfl
  · exact ⟨rfl, tail, rfl, htail, h⟩
  · obtain ⟨rest, heq, -⟩ := mem_comment.mp h
    obtain ⟨rfl, rfl⟩ := List.cons.inj heq
    obtain ⟨more, rfl⟩ := htail
    exact absurd ⟨rfl, rfl⟩ hline

theorem operatorTail?_eq_some (h : operatorTail? c cs = some tail) :
    c :: tail ∈ operatorTexts ∧ tail <+: cs ∧
      ∀ other, c :: other ∈ operatorTexts → other <+: cs → other.length ≤ tail.length := by
  unfold operatorTail? at h
  by_cases hlong : ((cs.take 1).any fun d => longOperators.contains (c, d)) = true
  · rw [if_pos hlong] at h
    obtain rfl := Option.some.inj h
    obtain ⟨d, hd, hmem⟩ := List.any_eq_true.mp hlong
    have hne : cs ≠ [] := List.ne_nil_of_mem (List.mem_of_mem_take hd)
    obtain ⟨e, more, rfl⟩ := List.exists_cons_of_ne_nil hne
    obtain rfl : d = e := by simpa using hd
    refine ⟨cons_mem_operatorTexts.mpr (Or.inr ⟨d, rfl, List.contains_iff_mem.mp hmem⟩),
      ⟨more, rfl⟩, ?_⟩
    intro other hother _
    rcases cons_mem_operatorTexts.mp hother with ⟨rfl, -⟩ | ⟨e, rfl, -⟩ <;> simp
  · rw [if_neg hlong] at h
    by_cases hshort : operators.contains c = true
    · rw [if_pos hshort] at h
      obtain rfl := Option.some.inj h
      refine ⟨cons_mem_operatorTexts.mpr (Or.inl ⟨rfl, List.contains_iff_mem.mp hshort⟩),
        List.nil_prefix, ?_⟩
      intro other hother hfront
      rcases cons_mem_operatorTexts.mp hother with ⟨rfl, -⟩ | ⟨d, rfl, hd⟩
      · exact Nat.le_refl _
      · obtain ⟨more, rfl⟩ := hfront
        exact (hlong (List.any_eq_true.mpr
          ⟨d, List.mem_singleton.mpr rfl, List.contains_iff_mem.mpr hd⟩)).elim
    · rw [if_neg hshort] at h
      cases h

theorem operatorTail?_eq_none (h : operatorTail? c cs = none) :
    ∀ other, c :: other ∈ operatorTexts → ¬ other <+: cs := by
  intro other hother hfront
  unfold operatorTail? at h
  by_cases hlong : ((cs.take 1).any fun d => longOperators.contains (c, d)) = true
  · rw [if_pos hlong] at h
    cases h
  · rw [if_neg hlong] at h
    by_cases hshort : operators.contains c = true
    · rw [if_pos hshort] at h
      cases h
    · rcases cons_mem_operatorTexts.mp hother with ⟨rfl, hc⟩ | ⟨d, rfl, hd⟩
      · exact hshort (List.contains_iff_mem.mpr hc)
      · obtain ⟨more, rfl⟩ := hfront
        exact hlong (List.any_eq_true.mpr
          ⟨d, List.mem_singleton.mpr rfl, List.contains_iff_mem.mpr hd⟩)

/-! ### One lexeme -/

theorem scan_quote (cs : List Char) : scan '\'' cs =
    match quotedTail cs with
    | .ok tail => .ok (.quoted, tail)
    | .error seen => .error ('\'' :: seen) := rfl

theorem longest_of_scan (h : scan c cs = .ok (kind, tail)) :
    Longest (c :: cs) ⟨kind, c :: tail⟩ := by
  unfold scan at h
  split_ifs at h with hgap hword hdigit hquote hline hpunctuation
  · cases h
    exact longest_gap hgap
  · cases h
    exact longest_word hgap hword
  · have hnumber := Except.ok.inj h
    have hlongest : Longest (c :: cs) _ := longest_number hgap hword hdigit
    rwa [hnumber] at hlongest
  · subst hquote
    cases hstring : quotedTail cs with
    | error seen =>
        rw [hstring] at h
        cases h
    | ok found =>
        rw [hstring] at h
        cases h
        exact longest_quoted hstring
  · obtain ⟨rfl, hhead⟩ := hline
    obtain ⟨more, rfl⟩ := List.head?_eq_some_iff.mp hhead
    cases h
    exact longest_comment
  · cases h
    exact longest_punctuation (List.contains_iff_mem.mp hpunctuation)
  · have hc : familyOf c = .operator := by
      rw [familyOf, if_neg hgap, if_neg hword, if_neg hdigit, if_neg hquote,
        if_neg (mt List.contains_iff_mem.mpr hpunctuation)]
    cases hsymbol : operatorTail? c cs with
    | none =>
        rw [hsymbol] at h
        cases h
    | some found =>
        rw [hsymbol] at h
        cases h
        obtain ⟨hmem, hfront, hlongest⟩ := operatorTail?_eq_some hsymbol
        refine ⟨hmem, List.cons_prefix_cons.mpr ⟨rfl, hfront⟩, ?_⟩
        intro kind text hmatch htext
        obtain ⟨rfl, other, rfl, hother, htexts⟩ := operator_candidate hc hline hmatch htext
        exact Nat.succ_le_succ (hlongest other htexts hother)

/-- Where scanning fails, a string does not close, or nothing matches. -/
theorem scan_eq_error (h : scan c cs = .error seen) :
    c = '\'' ∧ (∃ looked, quotedTail cs = .error looked) ∨ ∀ l, ¬ Longest (c :: cs) l := by
  unfold scan at h
  split_ifs at h with hgap hword hdigit hquote hline hpunctuation
  · cases hstring : quotedTail cs with
    | error looked => exact Or.inl ⟨hquote, looked, rfl⟩
    | ok found =>
        rw [hstring] at h
        cases h
  · have hc : familyOf c = .operator := by
      rw [familyOf, if_neg hgap, if_neg hword, if_neg hdigit, if_neg hquote,
        if_neg (mt List.contains_iff_mem.mpr hpunctuation)]
    cases hsymbol : operatorTail? c cs with
    | some found =>
        rw [hsymbol] at h
        cases h
    | none =>
        refine Or.inr ?_
        intro l hl
        obtain ⟨-, other, -, hother, htexts⟩ := operator_candidate hc hline hl.matched hl.front
        exact operatorTail?_eq_none hsymbol other htexts hother

end SelectPlanner.Lexeme
