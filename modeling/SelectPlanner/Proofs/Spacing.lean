/-
Where a piece of a text ends.

There are few characters with which a piece can go on: letters and digits, the point of a number,
the second character of an operator, and a quote behind the quote that would have closed a string.
In front of any other character a piece is the longest match, whatever follows.  The one exception
is a hyphen in front of a hyphen, which starts a comment.

So a text can be taken apart from its end: a piece in front of a text that stops it adds its token
to the tokens of that text, and a blank or a comment in front adds nothing.  In this way tokens that
come of texts, in whatever order, come of one text, with a blank behind each of them.
-/
import Mathlib
import SelectPlanner.Proofs.LexicalTokens

namespace SelectPlanner

namespace Lexeme

variable {b : Char} {rest : List Char}

/-! ### A piece in front of what does not continue it -/

/-- No piece goes on with this character, a hyphen behind a hyphen apart. -/
def Stops (b : Char) : Prop := ¬ (Letter b ∨ Digit b ∨ b ∈ ['.', '=', '>', '\''])

instance (b : Char) : Decidable (Stops b) :=
  inferInstanceAs (Decidable ¬ (Letter b ∨ Digit b ∨ b ∈ ['.', '=', '>', '\'']))

theorem stops_of_blank (hb : Blank b) : Stops b := by
  rcases hb with rfl | rfl | rfl | rfl | rfl <;> decide

/-- A text is over or starts with a character that no piece goes on with. -/
def Stopped (rest : List Char) : Prop := ∀ b ∈ rest.head?, Stops b

theorem stopped_cons (hb : Stops b) : Stopped (b :: rest) := by
  rintro c ⟨⟩
  exact hb

theorem Stopped.head?_ne (h : Stopped rest) (hb : ¬ Stops b) : rest.head? ≠ some b := by
  intro hhead
  exact hb (h b hhead)

/-- Runs of characters that pieces go on with are over. -/
theorem Stopped.takeWhile_eq_nil {p : Char → Bool} (h : Stopped rest)
    (hp : ∀ b, p b = true → ¬ Stops b) : rest.takeWhile p = [] := by
  cases rest with
  | nil => rfl
  | cons b rest =>
      refine List.takeWhile_cons_of_neg fun hb => ?_
      exact hp b hb (h b rfl)

theorem Stopped.digits_eq_nil (h : Stopped rest) : digits rest = [] :=
  h.takeWhile_eq_nil fun _ hb hstops => hstops (Or.inr (Or.inl (isDigit_iff.mp hb)))

theorem Stopped.fraction_eq_nil (h : Stopped rest) : fraction rest = [] := by
  rcases fraction_cases rest with hnone | ⟨part, after, rfl, -⟩
  · exact hnone
  · exact absurd (h '.' rfl) (by decide)

theorem Stopped.exponent_eq_nil (h : Stopped rest) : exponent rest = [] := by
  rcases exponent_cases rest with hnone | ⟨e, s, power, after, rfl, rfl | rfl, -⟩
  · exact hnone
  · exact absurd (h 'e' rfl) (by decide)
  · exact absurd (h 'E' rfl) (by decide)

theorem longest_word_of_stopped {c : Char} {parts : List Char} (hc : Letter c)
    (hparts : ∀ d ∈ parts, Letter d ∨ Digit d) (h : Stopped rest) :
    Longest (c :: (parts ++ rest)) ⟨.word, c :: parts⟩ := by
  have hword : Longest (c :: (parts ++ rest)) _ :=
    longest_word (mt isGap_iff.mp (not_blank_of_letter hc)) (isWordStart_iff.mpr hc)
  have hrest : rest.takeWhile isWordPart = [] := by
    refine h.takeWhile_eq_nil fun b hb hstops => ?_
    rcases isWordPart_iff.mp hb with hb | hb
    · exact hstops (Or.inl hb)
    · exact hstops (Or.inr (Or.inl hb))
  rwa [List.takeWhile_append_of_pos fun d hd => isWordPart_iff.mpr (hparts d hd), hrest,
    List.append_nil] at hword

theorem longest_number_of_digit {c : Char} (hc : Digit c) (cs : List Char) :
    Longest (c :: cs) ⟨(numberTail cs).1, c :: (numberTail cs).2⟩ :=
  longest_number (mt isGap_iff.mp (not_blank_of_digit hc))
    (mt isWordStart_iff.mp (not_letter_of_digit hc)) (isDigit_iff.mpr hc)

theorem longest_double_of_stopped {whole part power : List Char} (hwhole : whole ∈ wholePattern)
    (hpart : part ∈ wholePattern) (hpower : power = [] ∨ power ∈ exponentPattern)
    (h : Stopped rest) : Longest (whole ++ '.' :: (part ++ power) ++ rest)
      ⟨.double, whole ++ '.' :: (part ++ power)⟩ := by
  obtain ⟨hne, hwhole⟩ := mem_several_single.mp hwhole
  obtain ⟨hne', hpart⟩ := mem_several_single.mp hpart
  obtain ⟨c, whole, rfl⟩ := List.exists_cons_of_ne_nil hne
  obtain ⟨hc, hwhole⟩ := List.forall_mem_cons.mp hwhole
  have hnumber := longest_number_of_digit hc (whole ++ '.' :: (part ++ (power ++ rest)))
  -- The fraction ends where the exponent starts, and the exponent where the rest does.
  have hpoint : digits (power ++ rest) = [] := by
    rcases hpower with rfl | hpower
    · exact h.digits_eq_nil
    · obtain ⟨e, s, ds, rfl, rfl | rfl, -⟩ := mem_exponentPattern.mp hpower
      · exact digits_cons (by decide)
      · exact digits_cons (by decide)
  have hexponent : exponent (power ++ rest) = power := by
    rcases hpower with rfl | hpower
    · exact h.exponent_eq_nil
    · obtain ⟨e, s, ds, rfl, he, hs, hds, hdigits⟩ := mem_exponentPattern.mp hpower
      rw [List.cons_append, List.append_assoc, exponent_append he hs hds hdigits, h.digits_eq_nil,
        List.append_nil]
  rw [numberTail_fraction hwhole hne' hpart hpoint, hexponent] at hnumber
  simpa using hnumber

theorem longest_quoted_of_items {items : List (List Char)}
    (hitems : ∀ item ∈ items, item ∈ itemPattern) (hrest : rest.head? ≠ some '\'') :
    Longest ('\'' :: (items.flatten ++ ['\'']) ++ rest)
      ⟨.quoted, '\'' :: (items.flatten ++ ['\''])⟩ :=
  longest_quoted (quotedTail_closed hitems hrest)

theorem longest_operator_of_stopped {text : List Char} (htext : text ∈ operatorTexts)
    (h : Stopped rest) (hline : ¬ (text = ['-'] ∧ rest.head? = some '-')) :
    Longest (text ++ rest) ⟨.operator, text⟩ := by
  have hpattern : text ∈ Kind.operator.pattern := htext
  obtain ⟨c, tail, rfl, hstarts⟩ := starts_of_mem hpattern
  refine ⟨htext, ⟨rest, rfl⟩, ?_⟩
  intro kind other hmatch hfront
  have hnoComment : ¬ (c = '-' ∧ (tail ++ rest).head? = some '-') := by
    rintro ⟨rfl, hhead⟩
    rcases cons_mem_operatorTexts.mp htext with ⟨rfl, -⟩ | ⟨d, rfl, hd⟩
    · exact hline ⟨rfl, hhead⟩
    · obtain rfl := Option.some.inj hhead
      exact absurd hd (by decide)
  have hfamily : familyOf c = .operator := (family_of_starts hstarts).symm
  obtain ⟨-, tail', rfl, hfront', hother⟩ := operator_candidate hfamily hnoComment hmatch hfront
  refine Nat.succ_le_succ ?_
  rcases cons_mem_operatorTexts.mp hother with ⟨rfl, -⟩ | ⟨d, rfl, hd⟩
  · exact Nat.zero_le _
  rcases cons_mem_operatorTexts.mp htext with ⟨rfl, -⟩ | ⟨e, rfl, -⟩
  · -- A second character would be one of the two that operators go on with.
    have hsecond : ∀ pair ∈ longOperators, ¬ Stops pair.2 := by decide
    obtain ⟨more, rfl⟩ := hfront'
    exact absurd (h d rfl) (hsecond (c, d) hd)
  · exact Nat.le_refl _

/-- A piece is the longest in front of anything that does not continue it. -/
theorem longest_of_stopped {l : Lexeme} (hl : l.text ∈ l.kind.pattern)
    (hsep : ¬ l.kind.separates = true) (h : Stopped rest)
    (hline : ¬ (l = ⟨.operator, ['-']⟩ ∧ rest.head? = some '-')) :
    Longest (l.text ++ rest) l := by
  obtain ⟨kind, text⟩ := l
  cases kind with
  | gap | comment => exact absurd rfl hsep
  | word =>
      obtain ⟨c, parts, htext, hc, hparts⟩ := mem_word.mp hl
      obtain rfl : text = c :: parts := htext
      exact longest_word_of_stopped hc hparts h
  | long =>
      obtain ⟨hne, hdigits⟩ := mem_long.mp hl
      obtain ⟨c, whole, htext⟩ := List.exists_cons_of_ne_nil hne
      obtain rfl : text = c :: whole := htext
      obtain ⟨hc, hwhole⟩ := List.forall_mem_cons.mp hdigits
      have hnumber := longest_number_of_digit hc (whole ++ rest)
      rwa [numberTail_append hwhole h.digits_eq_nil, if_pos h.fraction_eq_nil] at hnumber
  | double =>
      obtain ⟨whole, part, power, htext, hwhole, hpart, hpower⟩ := mem_double.mp hl
      obtain rfl : text = _ := htext
      exact longest_double_of_stopped hwhole hpart hpower h
  | quoted =>
      obtain ⟨items, htext, hitems⟩ := mem_quoted.mp hl
      obtain rfl : text = _ := htext
      exact longest_quoted_of_items hitems (h.head?_ne (by decide))
  | operator =>
      refine longest_operator_of_stopped hl h fun ⟨htext, hhead⟩ => hline ⟨?_, hhead⟩
      rw [show text = ['-'] from htext]
  | punctuation =>
      have table : ∀ t ∈ separatorTexts, ∃ c ∈ punctuation, t = [c] := by
        simp [separatorTexts, punctuation]
      obtain ⟨c, hc, htext⟩ := table text hl
      obtain rfl : text = [c] := htext
      exact longest_punctuation hc

/-! ### The tokens of a text, from its front -/

variable {ts : List Token}

theorem reads_nil : Reads [] [] := ⟨[], .done, rfl⟩

theorem Stands.not_separates {l : Lexeme} {t : Token} (h : l.Stands t) :
    ¬ l.kind.separates = true := by
  cases h <;> exact nofun

/-- The piece at the front of a text stands for the first token. -/
theorem reads_append_iff {l : Lexeme} {t : Token} {us : List Token}
    (hl : Longest (l.text ++ rest) l) (ht : l.Stands t) :
    Reads (l.text ++ rest) us ↔ ∃ ts, us = t :: ts ∧ Reads rest ts := by
  constructor
  · rintro ⟨ls, hls, rfl⟩
    generalize hcs : l.text ++ rest = cs at hl hls
    cases hls with
    | done => exact absurd hl.front fun hnil => ne_nil_of_mem hl.matched (List.prefix_nil.mp hnil)
    | @piece l' rest' ls hl' hs =>
        obtain rfl := hl.unique hl'
        obtain rfl := List.append_cancel_left hcs
        exact ⟨_, List.filterMap_cons_some (token?_of_stands ht), ls, hs, rfl⟩
  · rintro ⟨ts, rfl, ls, hls, rfl⟩
    exact ⟨l :: ls, .piece hl hls, List.filterMap_cons_some (token?_of_stands ht)⟩

/-- A piece in front of a text that stops it adds its token. -/
theorem Reads.piece {l : Lexeme} {t : Token} (h : Reads rest ts) (hl : l.text ∈ l.kind.pattern)
    (ht : l.Stands t) (hstop : Stopped rest)
    (hline : ¬ (l = ⟨.operator, ['-']⟩ ∧ rest.head? = some '-')) :
    Reads (l.text ++ rest) (t :: ts) :=
  (reads_append_iff (longest_of_stopped hl ht.not_separates hstop hline) ht).mpr ⟨ts, rfl, h⟩

theorem Reads.separator {l : Lexeme} (h : Reads rest ts) (hl : Longest (l.text ++ rest) l)
    (hsep : l.kind.separates = true) : Reads (l.text ++ rest) ts := by
  obtain ⟨ls, hls, rfl⟩ := h
  exact ⟨l :: ls, .piece hl hls, List.filterMap_cons_none (token?_eq_none hsep)⟩

/-- The gap at the front of a text stands for nothing. -/
theorem Reads.dropWhile {cs : List Char} (h : Reads cs ts) : Reads (cs.dropWhile isGap) ts := by
  cases cs with
  | nil => exact h
  | cons c cs =>
      by_cases hc : isGap c = true
      · obtain ⟨ls, hls, rfl⟩ := h
        obtain ⟨l, rest, ls', hl, hsplit, rfl, hrest⟩ := hls.exists_piece
        obtain rfl := hl.unique (longest_gap hc)
        have hdrop : cs.dropWhile isGap = rest := by
          have htail : cs = cs.takeWhile isGap ++ rest := (List.cons.inj hsplit).2
          have hall : cs.takeWhile isGap ++ cs.dropWhile isGap = cs.takeWhile isGap ++ rest := by
            rw [List.takeWhile_append_dropWhile, ← htail]
          exact List.append_cancel_left hall
        rw [List.dropWhile_cons_of_pos hc, hdrop]
        exact ⟨ls', hrest, (List.filterMap_cons_none (token?_eq_none rfl)).symm⟩
      · rwa [List.dropWhile_cons_of_neg hc]

/-- A blank in front joins the gap that is there. -/
theorem Reads.blank (h : Reads rest ts) (hb : Blank b) : Reads (b :: rest) ts := by
  have hgap : Longest (b :: rest) ⟨.gap, b :: rest.takeWhile isGap⟩ :=
    longest_gap (isGap_iff.mpr hb)
  have hsplit : b :: rest = (b :: rest.takeWhile isGap) ++ rest.dropWhile isGap := by
    rw [List.cons_append, List.takeWhile_append_dropWhile]
  rw [hsplit] at hgap ⊢
  exact h.dropWhile.separator (l := ⟨.gap, b :: rest.takeWhile isGap⟩) hgap rfl

/-- A comment in front of a line end stands for nothing. -/
theorem Reads.comment {line : List Char} (h : Reads ('\n' :: rest) ts)
    (hline : ∀ c ∈ line, c ≠ '\n') : Reads ('-' :: '-' :: (line ++ '\n' :: rest)) ts := by
  have hcomment : Longest ('-' :: '-' :: (line ++ '\n' :: rest)) _ := longest_comment
  have hall : ∀ c ∈ line, (c != '\n') = true := fun c hc => by simpa using hline c hc
  rw [List.takeWhile_append_of_pos hall, List.takeWhile_cons_of_neg (by decide),
    List.append_nil] at hcomment
  exact h.separator (l := ⟨.comment, '-' :: '-' :: line⟩) hcomment rfl

end Lexeme

namespace Token

/-- Tokens that come of texts come of one text. -/
theorem exists_text {ts : List Token} (h : ∀ t ∈ ts, t.Written) :
    ∃ sql, ofText sql = .ok ts := by
  have hreads : ∃ cs, Lexeme.Reads cs ts := by
    induction ts with
    | nil => exact ⟨[], Lexeme.reads_nil⟩
    | cons t ts ih =>
        obtain ⟨⟨l, hl, hstands⟩, hrest⟩ := List.forall_mem_cons.mp h
        obtain ⟨cs, hcs⟩ := ih hrest
        exact ⟨l.text ++ ' ' :: cs, (hcs.blank (Or.inl rfl)).piece hl hstands
          (Lexeme.stopped_cons (by decide)) fun h => absurd (Option.some.inj h.2) (by decide)⟩
  obtain ⟨cs, hcs⟩ := hreads
  refine ⟨String.ofList cs, ofText_eq_ok_iff_reads.mpr ?_⟩
  rwa [String.toList_ofList]

end Token

end SelectPlanner
