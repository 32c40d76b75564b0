/-
The tokens of two lines are those of the first and then those of the second.

A line end belongs to gaps and strings only.  So nothing that is found in the first line could have
gone on into the second, apart from these two: a match that did would have the line end in it.  A
string does not go on either, for it was closed by a quote that no quote follows.  A gap does, and
makes one piece with what there is of it in the second line; but it stands for no token wherever it
is cut.

If the second line does not fall into pieces, neither do the two lines, and they stop at the same
place, counted from the start of the first.  `tokens` keeps both ways in which a text can end, so
that one equation says of each piece what it does to them.
-/
import Mathlib
import SelectPlanner.Proofs.Tokenization

namespace SelectPlanner

namespace Lexeme

variable {c : Char} {cs text tail rest : List Char} {kind : Kind}

/-! ### A line end behind a piece -/

/-- Only gaps and strings contain line ends. -/
theorem gap_or_quoted_of_newline (h : text ∈ kind.pattern) (hline : '\n' ∈ text) :
    kind = .gap ∨ kind = .quoted := by
  have digits : ∀ {run : List Char}, (∀ d ∈ run, Digit d) → '\n' ∉ run :=
    fun hrun hmem => absurd (hrun _ hmem) (by decide)
  cases kind with
  | gap => exact Or.inl rfl
  | quoted => exact Or.inr rfl
  | comment =>
      obtain ⟨line, rfl, hall⟩ := mem_comment.mp h
      have hmem : '\n' ∈ line := by simpa using hline
      exact absurd rfl (hall _ hmem)
  | word =>
      obtain ⟨d, parts, rfl, hd, hparts⟩ := mem_word.mp h
      have hall : ∀ e ∈ d :: parts, Letter e ∨ Digit e :=
        List.forall_mem_cons.mpr ⟨Or.inl hd, hparts⟩
      exact absurd (hall _ hline) (by decide)
  | long => exact absurd hline (digits (mem_long.mp h).2)
  | double =>
      obtain ⟨whole, part, power, rfl, hwhole, hpart, hpower⟩ := mem_double.mp h
      have hnone : '\n' ∉ power := by
        rcases hpower with rfl | hpower
        · exact List.not_mem_nil
        · obtain ⟨e, s, ds, rfl, he, hs, -, hds⟩ := mem_exponentPattern.mp hpower
          have hletter : '\n' ≠ e := by
            rcases he with rfl | rfl <;> decide
          have hsign : '\n' ∉ s := by
            rcases hs with rfl | rfl | rfl <;> decide
          simp [hletter, hsign, digits hds]
      simp [digits (mem_several_single.mp hwhole).2, digits (mem_several_single.mp hpart).2,
        hnone] at hline
  | operator =>
      have table : ∀ t ∈ operatorTexts, '\n' ∉ t := by decide
      exact absurd hline (table text h)
  | punctuation =>
      have table : ∀ t ∈ separatorTexts, '\n' ∉ t := by decide
      exact absurd hline (table text h)

/-- A piece that is neither gap nor string is no longer with another line behind. -/
theorem Longest.before_newline {l : Lexeme} (h : Longest (c :: cs) l) (hgap : l.kind ≠ .gap)
    (hquoted : l.kind ≠ .quoted) (more : List Char) : Longest (c :: (cs ++ '\n' :: more)) l := by
  have hwhole : c :: cs <+: c :: (cs ++ '\n' :: more) := ⟨'\n' :: more, rfl⟩
  refine ⟨h.matched, h.front.trans hwhole, ?_⟩
  intro kind text htext hfront
  by_cases hlen : text.length ≤ (c :: cs).length
  · exact h.longest kind text htext (List.prefix_of_prefix_length_le hfront hwhole hlen)
  · -- It goes beyond the line and has a line end in it, which nothing of this family has.
    have hbeyond : c :: cs ++ ['\n'] <+: text := by
      have hline : c :: cs ++ ['\n'] <+: c :: (cs ++ '\n' :: more) := ⟨more, by simp⟩
      refine List.prefix_of_prefix_length_le hline hfront ?_
      simp only [List.length_append, List.length_singleton]
      omega
    have hmem : '\n' ∈ text := hbeyond.subset (by simp)
    have hfamily : l.kind.family = kind.family :=
      (candidate h.matched h.front).1.trans (candidate htext hfront).1.symm
    rcases gap_or_quoted_of_newline htext hmem with rfl | rfl
    · exact absurd (Kind.eq_of_family_alone (by decide) hfamily) hgap
    · exact absurd (Kind.eq_of_family_alone (by decide) hfamily) hquoted

theorem quotedTail_before_newline (h : quotedTail cs = .ok tail) (more : List Char) :
    quotedTail (cs ++ '\n' :: more) = .ok tail := by
  obtain ⟨items, rest, hitems, rfl, rfl, hrest⟩ := closing_of_quotedTail h
  have hnext : (rest ++ '\n' :: more).head? ≠ some '\'' := by
    cases rest with
    | nil => simp
    | cons d rest => exact hrest
  rw [List.append_assoc]
  exact quotedTail_closed hitems hnext

/-- What is scanned in a line is scanned there with another line behind, gaps apart. -/
theorem scan_before_newline (hgap : kind ≠ .gap) (h : scan c cs = .ok (kind, tail))
    (more : List Char) : scan c (cs ++ '\n' :: more) = .ok (kind, tail) := by
  by_cases hquote : c = '\''
  · subst hquote
    rw [scan_quote] at h ⊢
    cases hstring : quotedTail cs with
    | error seen =>
        rw [hstring] at h
        cases h
    | ok found =>
        rw [hstring] at h
        rw [quotedTail_before_newline hstring]
        exact h
  · have hlongest := longest_of_scan h
    have hquoted : kind ≠ .quoted := by
      intro hquoted
      subst hquoted
      obtain ⟨items, htext, -⟩ := mem_quoted.mp hlongest.matched
      exact hquote (List.cons.inj htext).1
    have hmore := hlongest.before_newline hgap hquoted more
    cases hscan : scan c (cs ++ '\n' :: more) with
    | error seen =>
        rcases scan_eq_error hscan with ⟨hc, -⟩ | hnone
        · exact absurd hc hquote
        · exact absurd hmore (hnone _)
    | ok found =>
        have hsame := hmore.unique (longest_of_scan hscan)
        simp only [Lexeme.mk.injEq, List.cons.injEq, true_and] at hsame
        rw [hsame.1, hsame.2]

/-! ### What a piece does to the tokens -/

/-- The tokens of a text, or where it stops falling into pieces. -/
def tokens (cs : List Char) : Except Stuck (List Token) := (ofText cs).map (List.filterMap token?)

/-- What becomes of the rest of a text behind a front with these tokens. -/
def behind (front : List Char) (ts : List Token) :
    Except Stuck (List Token) → Except Stuck (List Token)
  | .ok us => .ok (ts ++ us)
  | .error stuck => .error (stuck.behind front)

theorem behind_nil (r : Except Stuck (List Token)) : behind [] [] r = r := by
  cases r with
  | ok us => rfl
  | error stuck => simp [behind, Stuck.behind, byteLength]

theorem behind_behind (front mid : List Char) (ts us : List Token)
    (r : Except Stuck (List Token)) :
    behind front ts (behind mid us r) = behind (front ++ mid) (ts ++ us) r := by
  cases r with
  | ok vs => simp [behind]
  | error stuck => simp [behind, Stuck.behind_behind]

theorem behind_eq_ok {front : List Char} {ts us : List Token} {r : Except Stuck (List Token)}
    (h : behind front ts r = .ok us) : ∃ vs, r = .ok vs ∧ us = ts ++ vs := by
  cases r with
  | ok vs => exact ⟨vs, rfl, (Except.ok.inj h).symm⟩
  | error stuck => cases h

theorem tokens_nil : tokens [] = .ok [] := by
  unfold tokens
  rw [ofText]
  rfl

theorem tokens_piece (h : scan c (tail ++ rest) = .ok (kind, tail)) :
    tokens (c :: (tail ++ rest)) =
      behind (c :: tail) (token? ⟨kind, c :: tail⟩).toList (tokens rest) := by
  unfold tokens
  rw [ofText_of_scan h]
  cases ofText rest with
  | error stuck => rfl
  | ok ls =>
      show Except.ok (List.filterMap token? (⟨kind, c :: tail⟩ :: ls)) = _
      rw [List.filterMap_cons]
      cases token? ⟨kind, c :: tail⟩ <;> rfl

theorem tokens_stuck {seen : List Char} (h : scan c cs = .error seen) :
    tokens (c :: cs) = .error ⟨0, seen⟩ := by
  unfold tokens
  rw [ofText_of_scan_error h]
  rfl

theorem tokens_gap {run : List Char} (hc : isGap c = true) (hrun : ∀ d ∈ run, isGap d = true)
    (hrest : rest.takeWhile isGap = []) :
    tokens (c :: (run ++ rest)) = behind (c :: run) [] (tokens rest) := by
  have hscan : scan c (run ++ rest) = .ok (.gap, run) := by
    unfold scan
    rw [if_pos hc, List.takeWhile_append_of_pos hrun, hrest, List.append_nil]
  exact tokens_piece hscan

/-- A blank in front adds no token, whether or not it joins a gap. -/
theorem tokens_blank (hc : isGap c = true) (cs : List Char) :
    tokens (c :: cs) = behind [c] [] (tokens cs) := by
  have hrun : ∀ d ∈ cs.takeWhile isGap, isGap d = true := fun d hd => List.mem_takeWhile_imp hd
  have hrest : (cs.dropWhile isGap).takeWhile isGap = [] := by
    rw [List.takeWhile_eq_nil_iff]
    exact List.dropWhile_get_zero_not _ _
  rw [← List.takeWhile_append_dropWhile (p := isGap) (l := cs), tokens_gap hc hrun hrest]
  generalize cs.takeWhile isGap = run at hrun
  cases run with
  | nil => rw [List.nil_append]
  | cons d run =>
      obtain ⟨hd, hrun⟩ := List.forall_mem_cons.mp hrun
      rw [List.cons_append, tokens_gap hd hrun hrest, behind_behind]
      rfl

theorem tokens_blanks {run : List Char} (hrun : ∀ d ∈ run, isGap d = true) (cs : List Char) :
    tokens (run ++ cs) = behind run [] (tokens cs) := by
  induction run with
  | nil => rw [List.nil_append, behind_nil]
  | cons d run ih =>
      obtain ⟨hd, hrun⟩ := List.forall_mem_cons.mp hrun
      rw [List.cons_append, tokens_blank hd, ih hrun, behind_behind]
      rfl

/-! ### Two lines -/

/-- A text that has tokens keeps them, and what it does to the offsets behind it, with another line
behind. -/
theorem tokens_before_newline {ts : List Token} (h : tokens cs = .ok ts) (more : List Char) :
    tokens (cs ++ '\n' :: more) = behind cs ts (tokens ('\n' :: more)) := by
  induction cs using scan_induction generalizing ts with
  | nil =>
      obtain rfl : [] = ts := Except.ok.inj (tokens_nil.symm.trans h)
      rw [List.nil_append, behind_nil]
  | stuck c cs seen hscan =>
      rw [tokens_stuck hscan] at h
      cases h
  | piece c kind tail rest hscan ih =>
      rw [tokens_piece hscan] at h
      obtain ⟨us, hus, rfl⟩ := behind_eq_ok h
      -- A gap may go on in the other line, so it is not one piece there.
      by_cases hgap : kind = .gap
      · subst hgap
        obtain ⟨-, hblank⟩ := mem_gap.mp (longest_of_scan hscan).matched
        have hrun : ∀ d ∈ c :: tail, isGap d = true := fun d hd => isGap_iff.mpr (hblank d hd)
        rw [← List.cons_append, List.append_assoc, tokens_blanks hrun, ih hus, behind_behind]
        rfl
      · have hscan' := scan_before_newline hgap hscan more
        rw [List.append_assoc] at hscan'
        rw [List.cons_append, List.append_assoc, tokens_piece hscan', ih hus, behind_behind,
          List.cons_append]

end Lexeme

namespace Token

variable {sql : String} {ts : List Token} {err : Error}

theorem ofText_eq_ok_iff_tokens : ofText sql = .ok ts ↔ Lexeme.tokens sql.toList = .ok ts := by
  unfold ofText Lexeme.tokens
  cases Lexeme.ofText sql.toList <;> simp [Except.map]

theorem ofText_eq_error_iff_tokens :
    ofText sql = .error err ↔
      ∃ stuck, Lexeme.tokens sql.toList = .error stuck ∧ stuck.toError = err := by
  unfold ofText Lexeme.tokens
  cases Lexeme.ofText sql.toList <;> simp [Except.map]

/-- **Tokens are found line by line.**  Behind a text that has tokens and a line end, the tokens of
another text follow; and where that text stops falling into tokens the two stop too, as many bytes
later as the first text and the line end take. -/
theorem ofText_lines {first : String} (h : ofText first = .ok ts) (second : String) :
    (∀ us, ofText second = .ok us → ofText (first ++ "\n" ++ second) = .ok (ts ++ us)) ∧
    ∀ position fragment, ofText second = .error (.unrecognised position fragment) →
      ofText (first ++ "\n" ++ second) =
        .error (.unrecognised (position + first.utf8ByteSize + 1) fragment) := by
  have hwhole : (first ++ "\n" ++ second).toList = first.toList ++ '\n' :: second.toList := by
    rw [String.toList_append, String.toList_append, List.append_assoc]
    rfl
  have hlines : Lexeme.tokens (first ++ "\n" ++ second).toList =
      Lexeme.behind (first.toList ++ ['\n']) ts (Lexeme.tokens second.toList) := by
    rw [hwhole, Lexeme.tokens_before_newline (ofText_eq_ok_iff_tokens.mp h),
      Lexeme.tokens_blank rfl, Lexeme.behind_behind, List.append_nil]
  refine ⟨?_, ?_⟩
  · intro us hus
    rw [ofText_eq_ok_iff_tokens] at hus ⊢
    rw [hlines, hus]
    rfl
  · intro position fragment herr
    rw [ofText_eq_error_iff_tokens] at herr ⊢
    obtain ⟨stuck, hstuck, hshown⟩ := herr
    refine ⟨stuck.behind (first.toList ++ ['\n']), by rw [hlines, hstuck]; rfl, ?_⟩
    obtain ⟨rfl, rfl⟩ := Error.unrecognised.inj hshown
    have hbytes : Lexeme.byteLength (first.toList ++ ['\n']) = first.utf8ByteSize + 1 := by
      rw [Lexeme.byteLength_append, Lexeme.byteLength_toList]
      rfl
    unfold Lexeme.Stuck.toError Lexeme.Stuck.behind
    rw [hbytes]
    simp only [Error.unrecognised.injEq, and_true]
    omega

/-- A number that gave an exponent up and a comment with a letter of two bytes in it, in front of a
string that closes and of one that does not. -/
theorem ofText_lines_comment :
    ofText "1.5e --é" = .ok [⟨.double, "1.5"⟩, ⟨.identifier, "e"⟩] ∧
      ofText "1.5e --é\n 'é'" = .ok [⟨.double, "1.5"⟩, ⟨.identifier, "e"⟩, ⟨.string, "é"⟩] ∧
      ofText "1.5e --é\n 'é" = .error (.unrecognised 11 "'é") := by
  have hfirst : ofText "1.5e --é" = .ok [⟨.double, "1.5"⟩, ⟨.identifier, "e"⟩] := by cbv
  have hclosed : ofText " 'é'" = .ok [⟨.string, "é"⟩] := by cbv
  have hopen : ofText " 'é" = .error (.unrecognised 1 "'é") := by cbv
  exact ⟨hfirst, (ofText_lines hfirst " 'é'").1 _ hclosed,
    (ofText_lines hfirst " 'é").2 1 "'é" hopen⟩

end Token

end SelectPlanner
