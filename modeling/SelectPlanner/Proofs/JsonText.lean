/-
What is written as JSON is read back.

A value is written without blanks, so its text starts with the first character of the value, and what
may stand behind it is a comma, the brace that closes an object, or nothing.  `ReadsBack` says of a
value that its text is read as the value whichever of these stands behind.  It holds of strings, of
whole numbers that fit 64 bits, and of objects of such, and objects are where the continuation is
needed: a member is read up to the comma or the brace behind it.

The readers carry how much of the text they use up.  None of that matters here, and `Finds` leaves it
out.
-/
import SelectPlanner.Json.Reader
import Mathlib.Data.List.Basic

namespace SelectPlanner.Json

/-! ### What a reader finds -/

/-- A reader finds this value, with this behind it. -/
def Finds {bound : Nat} {α : Type} (r : Read bound α) (value : α) (rest : List Char) : Prop :=
  ∃ within, r = some ⟨value, rest, within⟩

section Finds

variable {bound wider : Nat} {α β : Type} {r : Read bound α} {a : α} {rest : List Char}

theorem Finds.map (h : Finds r a rest) (f : α → β) : Finds (r.map (·.map f)) (f a) rest := by
  obtain ⟨within, rfl⟩ := h
  exact ⟨within, rfl⟩

theorem Finds.widen (h : Finds r a rest) (f : α → β) (le : bound ≤ wider) :
    Finds (r.map fun found => (found.map f).widen le) (f a) rest := by
  obtain ⟨within, rfl⟩ := h
  exact ⟨Nat.le_trans within le, rfl⟩

end Finds

/-! ### Strings -/

variable {cs rest : List Char} {ps : List Piece}

theorem finds_pieces_end (cs : List Char) : Finds (pieces ('"' :: cs)) [] cs :=
  ⟨Nat.le_succ _, by rw [pieces]⟩

theorem finds_pieces_plain {c : Char} (hc : 0x20 ≤ c.toNat) (hquote : c ≠ '"') (hback : c ≠ '\\')
    (h : Finds (pieces cs) ps rest) : Finds (pieces (c :: cs)) (.char c :: ps) rest := by
  rw [pieces, if_neg]
  · exact h.widen _ _
  · simp only [hback, or_false]
    omega
  · exact hquote
  · intro _ _ _ _ _ hc
    exact absurd hc hback
  · intro _ _ hc
    exact absurd hc hback

theorem finds_pieces_letter {e c : Char} (he : escaped? e = some c)
    (h : Finds (pieces cs) ps rest) : Finds (pieces ('\\' :: e :: cs)) (.char c :: ps) rest := by
  rw [pieces, he]
  · exact h.widen _ _
  · rintro _ _ _ _ _ rfl
    cases he

theorem finds_pieces_unit {a b c d : Char} {code : Nat} (hcode : codeUnit? a b c d = some code)
    (h : Finds (pieces cs) ps rest) :
    Finds (pieces ('\\' :: 'u' :: a :: b :: c :: d :: cs)) (.unit code :: ps) rest := by
  rw [pieces, hcode]
  exact h.widen _ _

/-- A code unit that is half of no pair is a character of its own. -/
theorem assemble_unit {code : Nat} (h : code < 0xd800) (ps : List Piece) :
    assemble (.unit code :: ps) = (assemble ps).map (Char.ofNat code :: ·) := by
  have hpair : ¬ (0xd800 ≤ code ∧ code < 0xdc00) := by omega
  have hlow : ¬ (0xdc00 ≤ code ∧ code < 0xe000) := by omega
  have hhalf : ¬ (0xd800 ≤ code ∧ code < 0xe000) := by omega
  cases ps with
  | nil => simp only [assemble, if_neg hhalf]
  | cons p ps =>
      cases p with
      | char c => simp only [assemble, if_neg hhalf]
      | unit low => simp only [assemble, if_neg hpair, if_neg hlow]

/-- The four digits of a control character. -/
theorem codeUnit?_control :
    ∀ n < 0x20,
      List.replicate (4 - (Nat.toDigits 16 n).length) '0' ++ Nat.toDigits 16 n =
        ['0', '0', Nat.digitChar (n / 16), Nat.digitChar (n % 16)] ∧
      codeUnit? '0' '0' (Nat.digitChar (n / 16)) (Nat.digitChar (n % 16)) = some n := by
  decide

/-- How a character is written: by a letter, by its code unit, or as it is. -/
theorem escape_cases (c : Char) :
    (∃ e, (escape c).toList = ['\\', e] ∧ escaped? e = some c) ∨
      (∃ a b d e, (escape c).toList = ['\\', 'u', a, b, d, e] ∧
        codeUnit? a b d e = some c.toNat ∧ c.toNat < 0x20) ∨
      (escape c).toList = [c] ∧ 0x20 ≤ c.toNat ∧ c ≠ '"' ∧ c ≠ '\\' := by
  have letter {e d : Char} {text : String} (htext : text.toList = ['\\', e])
      (he : escaped? e = some d) (hc : c = d) :
      ∃ e, text.toList = ['\\', e] ∧ escaped? e = some c := ⟨e, htext, hc ▸ he⟩
  unfold escape
  iterate 7
    split
    · next h => exact Or.inl (letter rfl rfl h)
  split
  · next h =>
      obtain ⟨hdigits, hcode⟩ := codeUnit?_control c.toNat h
      refine Or.inr (Or.inl ⟨_, _, _, _, ?_, hcode, h⟩)
      simp only [String.toList_append, String.toList_ofList, hdigits]
      rfl
  · next hquote hback _ _ _ _ _ h =>
      exact Or.inr (Or.inr ⟨String.toList_singleton c, by omega, hquote, hback⟩)

/-- A written character is read as a part of a string that stands for it. -/
theorem exists_piece (c : Char) :
    ∃ p : Piece, (∀ cs ps rest, Finds (pieces cs) ps rest →
        Finds (pieces ((escape c).toList ++ cs)) (p :: ps) rest) ∧
      ∀ ps, assemble (p :: ps) = (assemble ps).map (c :: ·) := by
  rcases escape_cases c with ⟨e, htext, he⟩ | ⟨a, b, d, e, htext, hcode, hc⟩ |
    ⟨htext, hc, hquote, hback⟩
  · refine ⟨.char c, fun cs ps rest h => ?_, fun ps => by rw [assemble]⟩
    rw [htext]
    exact finds_pieces_letter he h
  · refine ⟨.unit c.toNat, fun cs ps rest h => ?_, fun ps => ?_⟩
    · rw [htext]
      exact finds_pieces_unit hcode h
    · rw [assemble_unit (by omega), Char.ofNat_toNat]
  · refine ⟨.char c, fun cs ps rest h => ?_, fun ps => by rw [assemble]⟩
    rw [htext]
    exact finds_pieces_plain hc hquote hback h

/-- Written characters are read up to the quote behind them. -/
theorem exists_pieces (s rest : List Char) :
    ∃ ps, Finds (pieces (s.flatMap (fun c => (escape c).toList) ++ '"' :: rest)) ps rest ∧
      assemble ps = some s := by
  induction s with
  | nil => exact ⟨[], finds_pieces_end rest, by rw [assemble]⟩
  | cons c s ih =>
      obtain ⟨ps, hps, hs⟩ := ih
      obtain ⟨p, hp, hc⟩ := exists_piece c
      refine ⟨p :: ps, ?_, by rw [hc, hs]; rfl⟩
      rw [List.flatMap_cons, List.append_assoc]
      exact hp _ _ _ hps

/-- What is written between the quotes of a string. -/
def escaped (s : String) : List Char := s.toList.flatMap fun c => (escape c).toList

theorem toList_renderString (s : String) :
    (renderString s).toList = '"' :: (escaped s ++ ['"']) := by
  rw [renderString, String.toList_append, String.toList_append, String.toList_join,
    List.flatMap_map]
  rfl

/-- A written string is read up to its closing quote. -/
theorem finds_stringBody (s : String) (rest : List Char) :
    Finds (stringBody (escaped s ++ '"' :: rest)) (some s) rest := by
  obtain ⟨ps, hps, hs⟩ := exists_pieces s.toList rest
  have h := hps.map fun ps => (assemble ps).map String.ofList
  rwa [hs, Option.map_some, String.ofList_toList] at h

/-! ### Whole numbers -/

/-- What may stand behind a value: a comma, the brace that closes an object, or nothing. -/
def Ends (rest : List Char) : Prop := ∀ c ∈ rest.head?, c = ',' ∨ c = '\x7d'

theorem ends_nil : Ends [] := nofun

theorem ends_comma (rest : List Char) : Ends (',' :: rest) := by
  rintro c ⟨⟩
  exact Or.inl rfl

theorem ends_brace (rest : List Char) : Ends ('\x7d' :: rest) := by
  rintro c ⟨⟩
  exact Or.inr rfl

theorem digits?_append {run : List Char} (hne : run ≠ []) (hrun : ∀ c ∈ run, c.isDigit = true)
    (hrest : Ends rest) : digits? (run ++ rest) = some (run, rest) := by
  have htake : rest.takeWhile Char.isDigit = [] ∧ rest.dropWhile Char.isDigit = rest := by
    cases rest with
    | nil => exact ⟨rfl, rfl⟩
    | cons c rest => rcases hrest c rfl with rfl | rfl <;> exact ⟨rfl, rfl⟩
  rw [digits?, List.takeWhile_append_of_pos hrun, List.dropWhile_append_of_pos hrun, htake.1,
    htake.2, List.append_nil, if_neg hne]

theorem fraction?_of_ends (h : Ends rest) : fraction? rest = some (none, rest) := by
  unfold fraction?
  split
  · next cs => rcases h '.' rfl with h | h <;> cases h
  · rfl

theorem exponent?_of_ends (h : Ends rest) : exponent? rest = some (none, rest) := by
  cases rest with
  | nil => rfl
  | cons c rest => rcases h c rfl with rfl | rfl <;> rfl

/-- Only zero is written with a zero in front. -/
theorem head?_digits {n : Nat} (h : (Numeral.digits n).head? = some '0') : n = 0 := by
  induction n using Nat.strongRecOn with
  | ind n ih =>
      by_cases hn : n < 10
      · rw [Numeral.digits, Nat.toDigits_of_lt_base hn] at h
        have key : ∀ n < 10, n.digitChar = '0' → n = 0 := by decide
        exact key n hn (by simpa using h)
      · -- The digits before the last are those of the number divided by ten.
        rw [Numeral.digits, Nat.toDigits_of_base_le (by decide) (by omega),
          List.head?_append_of_ne_nil _ Nat.toDigits_ne_nil] at h
        have hzero := ih (n / 10) (by omega) h
        omega

theorem le_ofDigitChars (cs : List Char) (n : Nat) : n ≤ Nat.ofDigitChars 10 cs n := by
  induction cs generalizing n with
  | nil => exact Nat.le_refl n
  | cons c cs ih =>
      rw [Nat.ofDigitChars_cons]
      have := ih (10 * n + (c.toNat - '0'.toNat))
      omega

/-- Digits are gathered to the last where the whole fits. -/
theorem gather_eq {cs : List Char} {sofar : Nat}
    (h : Nat.ofDigitChars 10 cs sofar < 0x10000000000000000) :
    gather sofar cs = (Nat.ofDigitChars 10 cs sofar, 0) := by
  induction cs generalizing sofar with
  | nil => rfl
  | cons c cs ih =>
      rw [Nat.ofDigitChars_cons] at h ⊢
      rw [gather, if_pos (Nat.lt_of_le_of_lt (le_ofDigitChars cs _) h), ih h]

theorem value_of_digits {n : Nat} (h : n < 0x10000000000000000) :
    NumberText.value ⟨false, Numeral.digits n, none, none⟩ = .integer n := by
  have hvalue := Numeral.ofDigitChars_digits n
  rw [NumberText.value, gather_eq (by rwa [hvalue]), hvalue]
  rfl

theorem unsigned?_digits (n : Nat) (h : Ends rest) :
    unsigned? false (Numeral.digits n ++ rest) =
      some (⟨false, Numeral.digits n, none, none⟩, rest) := by
  have hzero : ¬ ((Numeral.digits n).head? = some '0' ∧ Numeral.digits n ≠ ['0']) := by
    intro ⟨hhead, hne⟩
    obtain rfl := head?_digits hhead
    exact hne rfl
  have hrun : ∀ c ∈ Numeral.digits n, c.isDigit = true := fun c hc =>
    Numeral.isDigit_of_mem_digits hc
  rw [unsigned?, digits?_append (Numeral.digits_ne_nil n) hrun h]
  simp only [Option.bind_some, if_neg hzero, fraction?_of_ends h, exponent?_of_ends h,
    Option.map_some]

theorem ne_of_isDigit {c d : Char} (hc : c.isDigit = true) (hd : d.isDigit = false) : c ≠ d := by
  rintro rfl
  rw [hd] at hc
  cases hc

theorem isSpace_of_isDigit {c : Char} (hc : c.isDigit = true) : isSpace c = false := by
  have other {d : Char} (hd : d.isDigit = false) : (c == d) = false :=
    beq_false_of_ne (ne_of_isDigit hc hd)
  rw [isSpace, other rfl, other rfl, other rfl, other rfl]
  rfl

theorem finds_number {c : Char} {n : NumberText} (hc : c.isDigit = true)
    (h : unsigned? false (c :: cs) = some (n, rest)) : Finds (value c cs) n.value rest := by
  have hnumber : Finds (number c cs) n.value rest := by
    rw [number, if_neg (ne_of_isDigit hc rfl)]
    split
    · next heq =>
        rw [h] at heq
        cases heq
    · next n' rest' heq =>
        obtain ⟨rfl, rfl⟩ := by simpa [h] using heq
        exact ⟨_, rfl⟩
  rw [value, atom]
  · exact hnumber
  all_goals exact ne_of_isDigit hc rfl

/-! ### Objects -/

theorem skipSpace_cons {c : Char} (hc : isSpace c = false) (cs : List Char) :
    skipSpace (c :: cs) = c :: cs := by
  rw [skipSpace, List.dropWhile_cons_of_neg (by simp [hc])]

theorem eq_of_skipSpace {c d : Char} {more : List Char} (hc : isSpace c = false)
    (h : skipSpace (c :: cs) = d :: more) : c = d ∧ cs = more :=
  List.cons.inj ((skipSpace_cons hc cs).symm.trans h)

theorem skipSpace_ne_nil {c : Char} (hc : isSpace c = false) : skipSpace (c :: cs) ≠ [] := by
  rw [skipSpace_cons hc]
  exact List.cons_ne_nil c cs

/-- Behind the first quote of a member stand its name, a colon and its value. -/
def FindsMember (cs : List Char) (name : Option String) (member : Json) (rest : List Char) : Prop :=
  ∃ v vs, Finds (stringBody cs) name (':' :: v :: vs) ∧ isSpace v = false ∧
    Finds (value v vs) member rest

/-- A brace behind a member ends the object, and a comma goes on with the members after it. -/
theorem FindsMember.members {name : Option String} {member : Json} {after : List Char}
    (h : FindsMember cs name member after) :
    (after = '\x7d' :: rest → Finds (members '"' cs) [(name, member)] rest) ∧
      ∀ d others more, after = ',' :: d :: others → isSpace d = false →
        Finds (Json.members d others) more rest →
          Finds (Json.members '"' cs) ((name, member) :: more) rest := by
  obtain ⟨v, vs, ⟨_, hname⟩, hv, ⟨_, hmember⟩⟩ := h
  rw [Json.members, if_neg (by decide), hname]
  dsimp only
  -- Blanks are skipped before each part, and there are none.
  split
  · next afterColon hcolon =>
      obtain ⟨-, rfl⟩ := eq_of_skipSpace (by decide) hcolon
      split
      · next hnil => exact absurd hnil (skipSpace_ne_nil hv)
      · next v' vs' hvalue =>
          obtain ⟨rfl, rfl⟩ := eq_of_skipSpace hv hvalue
          rw [hmember]
          dsimp only
          refine ⟨?_, ?_⟩
          · rintro rfl
            split
            · next more hbrace =>
                obtain ⟨-, rfl⟩ := eq_of_skipSpace (by decide) hbrace
                exact ⟨_, rfl⟩
            · next more hcomma => cases (eq_of_skipSpace (by decide) hcomma).1
            · next hbrace _ => exact absurd (skipSpace_cons (by decide) _) (hbrace _)
          · rintro d others more rfl hd hmore
            split
            · next rest' hbrace => cases (eq_of_skipSpace (by decide) hbrace).1
            · next rest' hcomma =>
                obtain ⟨-, rfl⟩ := eq_of_skipSpace (by decide) hcomma
                split
                · next hnil => exact absurd hnil (skipSpace_ne_nil hd)
                · next d' others' hnext =>
                    obtain ⟨rfl, rfl⟩ := eq_of_skipSpace hd hnext
                    exact hmore.widen _ _
            · next hcomma => exact absurd (skipSpace_cons (by decide) _) (hcomma _)
  · next hcolon => exact absurd (skipSpace_cons (by decide) _) (hcolon _)

theorem finds_empty (rest : List Char) :
    Finds (value '\x7b' ('\x7d' :: rest)) (object []) rest := by
  rw [value]
  split
  · next hnil => exact absurd hnil (skipSpace_ne_nil (by decide))
  · next d more hbrace =>
      obtain ⟨rfl, rfl⟩ := eq_of_skipSpace (by decide) hbrace
      rw [if_pos rfl]
      exact ⟨_, rfl⟩

theorem finds_object {ms : List (Option String × Json)}
    (h : Finds (members '"' cs) ms rest) :
    Finds (value '\x7b' ('"' :: cs)) (ofMembers ms) rest := by
  rw [value]
  split
  · next hnil => exact absurd hnil (skipSpace_ne_nil (by decide))
  · next d more hquote =>
      obtain ⟨rfl, rfl⟩ := eq_of_skipSpace (by decide) hquote
      rw [if_neg (by decide)]
      exact h.widen _ _

theorem ofMembers_named (ms : List (String × Json)) :
    ofMembers (ms.map fun m => (some m.1, m.2)) = object ms := by
  have hnamed : (ms.map fun m => (some m.1, m.2)).mapM
      (fun (m : Option String × Json) => m.1.map (·, m.2)) = some ms := by
    induction ms with
    | nil => rfl
    | cons m ms ih => simp [List.mapM_cons, ih]
  rw [ofMembers, hnamed]
  rfl

/-! ### What is written is read back -/

/-- The text of a value is read as the value, whatever stands behind it that may. -/
def ReadsBack (j : Json) : Prop :=
  ∀ rest, Ends rest → ∃ c cs, j.render.toList ++ rest = c :: cs ∧ isSpace c = false ∧
    Finds (value c cs) j rest

theorem readsBack_string (s : String) : ReadsBack (string s) := by
  intro rest _
  refine ⟨'"', escaped s ++ '"' :: rest, ?_, by decide, ?_⟩
  · rw [render, toList_renderString]
    simp
  · rw [value]
    exact (finds_stringBody s rest).map fun s => (s.map string).getD unreadable

theorem readsBack_integer {n : Nat} (h : n < 0x10000000000000000) : ReadsBack (integer n) := by
  intro rest hrest
  have htext : (render (integer n)).toList = Numeral.digits n := by
    rw [render]
    exact Numeral.toList_render n
  obtain ⟨c, cs, hdigits⟩ := List.exists_cons_of_ne_nil (Numeral.digits_ne_nil n)
  have hc : c.isDigit = true := Numeral.isDigit_of_mem_digits (hdigits ▸ List.mem_cons_self)
  have hread := unsigned?_digits n hrest
  rw [hdigits, List.cons_append] at hread
  have hfinds := finds_number hc hread
  rw [← hdigits, value_of_digits h] at hfinds
  exact ⟨c, cs ++ rest, by rw [htext, hdigits]; rfl, isSpace_of_isDigit hc, hfinds⟩

/-- A member is written as its name in quotes, a colon and its value. -/
theorem ReadsBack.findsMember {j : Json} (h : ReadsBack j) (name : String) (hrest : Ends rest) :
    FindsMember (escaped name ++ '"' :: ':' :: (j.render.toList ++ rest)) (some name) j rest := by
  obtain ⟨v, vs, htext, hv, hvalue⟩ := h rest hrest
  rw [htext]
  exact ⟨v, vs, finds_stringBody name _, hv, hvalue⟩

theorem finds_members {ms : List (String × Json)} (hne : ms ≠ []) (h : ∀ m ∈ ms, ReadsBack m.2)
    (rest : List Char) :
    ∃ cs, (renderMembers ms).toList ++ '\x7d' :: rest = '"' :: cs ∧
      Finds (members '"' cs) (ms.map fun m => (some m.1, m.2)) rest := by
  induction ms with
  | nil => exact absurd rfl hne
  | cons m ms ih =>
      obtain ⟨name, j⟩ := m
      obtain ⟨hj, hms⟩ := List.forall_mem_cons.mp h
      cases ms with
      | nil =>
          have hmember := hj.findsMember name (ends_brace rest)
          refine ⟨_, ?_, hmember.members.1 rfl⟩
          simp [renderMembers, toList_renderString]
      | cons m' ms =>
          obtain ⟨cs, htext, hfinds⟩ := ih (List.cons_ne_nil m' ms) hms
          have hmember := hj.findsMember name (ends_comma ('"' :: cs))
          refine ⟨_, ?_, hmember.members.2 _ _ _ rfl (by decide) hfinds⟩
          rw [← htext]
          simp [renderMembers, toList_renderString]

theorem readsBack_object {ms : List (String × Json)} (h : ∀ m ∈ ms, ReadsBack m.2) :
    ReadsBack (object ms) := by
  intro rest _
  by_cases hne : ms = []
  · subst hne
    exact ⟨'\x7b', '\x7d' :: rest, by rw [render, renderMembers]; rfl, by decide, finds_empty rest⟩
  · obtain ⟨cs, htext, hfinds⟩ := finds_members hne h rest
    refine ⟨'\x7b', '"' :: cs, ?_, by decide, ?_⟩
    · rw [← htext]
      simp [render]
    · rw [← ofMembers_named ms]
      exact finds_object hfinds

/-- **The text of a value that is read back is that value and nothing else.** -/
theorem ofText?_render {j : Json} (h : ReadsBack j) : ofText? j.render = some j := by
  obtain ⟨c, cs, htext, hc, _, hvalue⟩ := h [] ends_nil
  rw [List.append_nil] at htext
  rw [ofText?, htext, skipSpace_cons hc]
  simp only [hvalue, Option.bind_some]
  rfl

end SelectPlanner.Json
