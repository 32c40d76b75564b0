/-
A text without tokens has them up to the place that the error is about.

Taking a text apart fails at the first place where scanning does, and what was found up to there is
found also if the text ends there: a longest match stays the longest in a shorter text that it fits
in (`Longest.of_append`).  So the text in front of the place has tokens of its own.

What scanning looked at in vain is one character with which nothing starts, or a string that does
not close.  A string is looked at item by item, up to the end of the text or to a backslash that is
no item with what is behind it (`blocked_of_quotedTail`).
-/
import Mathlib
import SelectPlanner.Proofs.Tokenization

namespace SelectPlanner

namespace Lexeme

variable {c : Char} {cs seen front rest : List Char}

/-! ### What is looked at in vain -/

/-- At the front of a text this is looked at in vain, with `back` behind it: one character with
which nothing starts, or a string up to where it cannot go on. -/
inductive Vain (back : List Char) : List Char → Prop where
  | character {c : Char} (hquote : c ≠ '\'') (hnone : ∀ l, ¬ Longest (c :: back) l) : Vain back [c]
  | string {items : List (List Char)} (hitems : ∀ item ∈ items, item ∈ itemPattern)
      (hback : Blocked back) : Vain back ('\'' :: items.flatten)

theorem Vain.ne_nil (h : Vain rest seen) : seen ≠ [] := by
  cases h <;> exact List.cons_ne_nil _ _

theorem eq_singleton_of_scan (hquote : c ≠ '\'') (h : scan c cs = .error seen) : seen = [c] := by
  unfold scan at h
  rw [if_neg hquote] at h
  split_ifs at h
  cases hsymbol : operatorTail? c cs with
  | some found =>
      rw [hsymbol] at h
      cases h
  | none =>
      rw [hsymbol] at h
      exact (Except.error.inj h).symm

theorem vain_of_scan (h : scan c cs = .error seen) :
    ∃ back, c :: cs = seen ++ back ∧ Vain back seen := by
  by_cases hquote : c = '\''
  · subst hquote
    rw [scan_quote] at h
    cases hstring : quotedTail cs with
    | ok tail =>
        rw [hstring] at h
        cases h
    | error looked =>
        rw [hstring] at h
        obtain rfl : '\'' :: looked = seen := Except.error.inj h
        obtain ⟨items, back, hitems, rfl, rfl, hback⟩ := blocked_of_quotedTail hstring
        exact ⟨back, rfl, .string hitems hback⟩
  · obtain rfl := eq_singleton_of_scan hquote h
    rcases scan_eq_error h with ⟨hc, -⟩ | hnone
    · exact absurd hc hquote
    · exact ⟨cs, rfl, .character hquote hnone⟩

/-! ### The text in front of the failure -/

/-- A piece is the longest also where the text ends sooner. -/
theorem Longest.of_append {l : Lexeme} (h : Longest (front ++ rest) l) (hfront : l.text <+: front) :
    Longest front l := by
  refine ⟨h.matched, hfront, ?_⟩
  intro kind text htext htext'
  exact h.longest kind text htext (htext'.trans (List.prefix_append front rest))

/-- A text falls into pieces up to the place where scanning fails. -/
theorem munch_of_stuck {stuck : Stuck} (h : ofText cs = .error stuck) :
    ∃ front c rest ls, cs = front ++ c :: rest ∧ Munch front ls ∧
      stuck.position = byteLength front ∧ scan c rest = .error stuck.fragment := by
  induction cs using scan_induction generalizing stuck with
  | nil =>
      rw [ofText] at h
      cases h
  | stuck c cs seen hscan =>
      rw [ofText_of_scan_error hscan] at h
      obtain rfl := Except.error.inj h
      exact ⟨[], c, cs, [], rfl, .done, rfl, hscan⟩
  | piece c kind tail rest hscan ih =>
      rw [ofText_of_scan hscan] at h
      cases hrest : ofText rest with
      | ok lexemes =>
          rw [hrest] at h
          cases h
      | error inner =>
          rw [hrest] at h
          obtain rfl := Except.error.inj h
          obtain ⟨front, d, back, ls, rfl, hls, hposition, hfail⟩ := ih hrest
          have hlongest := longest_of_scan hscan
          have hwhole : c :: (tail ++ (front ++ d :: back)) = c :: tail ++ front ++ d :: back := by
            simp
          rw [hwhole] at hlongest
          have hpiece : Longest (c :: tail ++ front) ⟨kind, c :: tail⟩ :=
            hlongest.of_append ⟨front, rfl⟩
          refine ⟨c :: tail ++ front, d, back, ⟨kind, c :: tail⟩ :: ls, by simp,
            .piece (l := ⟨kind, c :: tail⟩) hpiece hls, ?_, hfail⟩
          rw [byteLength_append, ← hposition]
          rfl

end Lexeme

namespace Token

/-- **An error is about the first place where a text has no token.**  The text in front of the place
has tokens of its own.  The place is given in bytes; a character starts there, and with it what was
looked at in vain, which is this character alone or else a string that breaks off. -/
theorem ofText_stuck {sql : String} {err : Error} (h : ofText sql = .error err) :
    ∃ front fragment back : String, err = .unrecognised front.utf8ByteSize fragment ∧
      sql = front ++ fragment ++ back ∧ (∃ ts, ofText front = .ok ts) ∧
      String.Pos.Raw.IsValid sql ⟨front.utf8ByteSize⟩ ∧ front.utf8ByteSize < sql.utf8ByteSize ∧
      fragment ≠ "" ∧ Lexeme.Vain back.toList fragment.toList := by
  unfold ofText at h
  cases hlexemes : Lexeme.ofText sql.toList with
  | ok ls =>
      rw [hlexemes] at h
      cases h
  | error stuck =>
      rw [hlexemes] at h
      obtain rfl := Except.error.inj h
      obtain ⟨front, c, rest, ls, hsql, hfront, hposition, hscan⟩ := Lexeme.munch_of_stuck hlexemes
      obtain ⟨back, hrest, hvain⟩ := Lexeme.vain_of_scan hscan
      have hwhole : sql =
          String.ofList front ++ String.ofList stuck.fragment ++ String.ofList back := by
        rw [← String.ofList_toList (s := sql), hsql, hrest, ← List.append_assoc,
          String.ofList_append, String.ofList_append]
      have hfragment : String.ofList stuck.fragment ≠ "" := by
        intro hempty
        exact hvain.ne_nil (String.ofList_eq_empty_iff.mp hempty)
      refine ⟨String.ofList front, String.ofList stuck.fragment, String.ofList back, ?_, hwhole,
        ⟨_, ofText_eq_ok_iff_reads.mpr ⟨ls, by rwa [String.toList_ofList], rfl⟩⟩, ?_, ?_,
        hfragment, ?_⟩
      · rw [Lexeme.utf8ByteSize_ofList, ← hposition]
        rfl
      · rw [hwhole, String.append_assoc]
        exact String.Pos.Raw.isValid_iff_exists_append.mpr ⟨_, _, rfl, rfl⟩
      · have hbytes : (String.ofList stuck.fragment).utf8ByteSize ≠ 0 :=
          fun hzero => hfragment (String.utf8ByteSize_eq_zero_iff.mp hzero)
        rw [hwhole, String.utf8ByteSize_append, String.utf8ByteSize_append]
        omega
      · rwa [String.toList_ofList, String.toList_ofList]

/-- A string that a backslash at the end of its line breaks off, behind a comment with a letter of
two bytes in it. -/
theorem ofText_stuck_open :
    ofText "--é\n'a\\\n'" = .error (.unrecognised 5 "'a") ∧
      ∃ front back : String, "--é\n'a\\\n'" = front ++ "'a" ++ back ∧ front.utf8ByteSize = 5 ∧
        (∃ ts, ofText front = .ok ts) ∧ Lexeme.Vain back.toList ['\'', 'a'] := by
  have herr : ofText "--é\n'a\\\n'" = .error (.unrecognised 5 "'a") := by cbv
  obtain ⟨front, fragment, back, hshown, hsql, hfront, -, -, -, hvain⟩ := ofText_stuck herr
  obtain ⟨hposition, rfl⟩ := Error.unrecognised.inj hshown
  exact ⟨herr, front, back, hsql, hposition.symm, hfront, hvain⟩

end Token

end SelectPlanner
