/-
The tokens of a text are those of its longest matches.

`Munch` takes a text apart by the patterns alone, each piece being the longest match at its place,
and `Stands` says which token a piece stands for, from what the piece says alone.  A text has
tokens exactly when it falls into such pieces, and then they are what the pieces stand for, one for
each piece that is neither gap nor comment, in order: nothing else of a text is passed over.

Scanning commits to more than `Munch` does, for it never gives up a string.  No text is refused for
that.  Where a string does not close, every shorter match ends in front of a quote, which starts a
string that does not close either; so taking the text apart by patterns gets stuck as well, at a
later quote.
-/
import Mathlib
import SelectPlanner.Proofs.LongestMatch
import SelectPlanner.Token.Sequence

namespace SelectPlanner

namespace Lexeme

variable {c : Char} {cs seen : List Char}

/-! ### Pieces -/

/-- The pieces of a text, each the longest at its place. -/
inductive Munch : List Char → List Lexeme → Prop where
  | done : Munch [] []
  | piece {l : Lexeme} {rest : List Char} {ls : List Lexeme} (h : Longest (l.text ++ rest) l)
      (hs : Munch rest ls) : Munch (l.text ++ rest) (l :: ls)

theorem Munch.exists_piece {ls : List Lexeme} (h : Munch (c :: cs) ls) :
    ∃ l rest ls', Longest (c :: cs) l ∧ c :: cs = l.text ++ rest ∧ ls = l :: ls' ∧
      Munch rest ls' := by
  generalize hwhole : c :: cs = whole at h
  cases h with
  | done => cases hwhole
  | @piece l rest ls' hl hs => exact ⟨l, rest, ls', hl, rfl, rfl, hs⟩

/-- A text that starts with a string that does not close falls into no pieces. -/
theorem not_munch_of_open (h : quotedTail cs = .error seen) (ls : List Lexeme) :
    ¬ Munch ('\'' :: cs) ls := by
  -- On the length: a shorter string in front leaves a quote at which the same happens again.
  induction hk : cs.length using Nat.strongRecOn generalizing cs seen ls with
  | ind k ih =>
      intro hmunch
      obtain ⟨l, rest, ls', hl, hrest, -, hs⟩ := hmunch.exists_piece
      obtain ⟨-, items, more, hitems, htext, rfl⟩ := quoted_candidate hl.matched hl.front
      have hmore : rest = more := by
        rw [htext] at hrest
        simpa using hrest.symm
      subst hmore
      rw [quotedTail_items hitems] at h
      obtain ⟨looked, hopen, -⟩ := prepend_eq_error h
      by_cases hnext : rest.head? = some '\''
      · obtain ⟨after, rfl⟩ := List.head?_eq_some_iff.mp hnext
        rw [quotedTail] at hopen
        obtain ⟨looked', hafter, -⟩ := prepend_eq_error hopen
        simp only [List.length_append, List.length_cons] at hk
        exact ih after.length (by omega) hafter ls' rfl hs
      · rw [quotedTail_close hnext] at hopen
        cases hopen

theorem ofText_cons (c : Char) (cs : List Char) : ofText (c :: cs) =
    match scan c cs with
    | .error fragment => .error ⟨0, fragment⟩
    | .ok (kind, tail) =>
      match ofText (cs.drop tail.length) with
      | .error stuck => .error (stuck.behind (c :: tail))
      | .ok lexemes => .ok (⟨kind, c :: tail⟩ :: lexemes) :=
  ofText.eq_def (c :: cs)

theorem ofText_of_scan_error (h : scan c cs = .error seen) :
    ofText (c :: cs) = .error ⟨0, seen⟩ := by
  rw [ofText_cons, h]

theorem ofText_of_scan {kind : Kind} {tail rest : List Char}
    (h : scan c (tail ++ rest) = .ok (kind, tail)) : ofText (c :: (tail ++ rest)) =
      match ofText rest with
      | .error stuck => .error (stuck.behind (c :: tail))
      | .ok lexemes => .ok (⟨kind, c :: tail⟩ :: lexemes) := by
  rw [ofText_cons, h]
  simp only [List.drop_left]

/-- A text is over, or scanning fails at its first character, or scanning finds a piece there with
the rest of the text behind it. -/
@[elab_as_elim]
theorem scan_induction {motive : List Char → Prop} (nil : motive [])
    (stuck : ∀ c cs seen, scan c cs = .error seen → motive (c :: cs))
    (piece : ∀ c kind tail rest, scan c (tail ++ rest) = .ok (kind, tail) → motive rest →
      motive (c :: (tail ++ rest))) (cs : List Char) : motive cs := by
  induction hk : cs.length using Nat.strongRecOn generalizing cs with
  | ind k ih =>
      cases cs with
      | nil => exact nil
      | cons c cs =>
          cases hscan : scan c cs with
          | error seen => exact stuck c cs seen hscan
          | ok found =>
              obtain ⟨kind, tail⟩ := found
              obtain ⟨rest, rfl⟩ := (List.cons_prefix_cons.mp (longest_of_scan hscan).front).2
              simp only [List.length_cons, List.length_append] at hk
              exact piece c kind tail rest hscan (ih rest.length (by omega) rest rfl)

theorem munch_of_ofText {ls : List Lexeme} (h : ofText cs = .ok ls) : Munch cs ls := by
  induction cs using scan_induction generalizing ls with
  | nil =>
      rw [ofText] at h
      cases h
      exact .done
  | stuck c cs seen hscan =>
      rw [ofText_of_scan_error hscan] at h
      cases h
  | piece c kind tail rest hscan ih =>
      rw [ofText_of_scan hscan] at h
      cases hrest : ofText rest with
      | error stuck =>
          rw [hrest] at h
          cases h
      | ok lexemes =>
          rw [hrest] at h
          cases h
          exact .piece (l := ⟨kind, c :: tail⟩) (longest_of_scan hscan) (ih hrest)

theorem ofText_of_munch {ls : List Lexeme} (h : Munch cs ls) : ofText cs = .ok ls := by
  induction h with
  | done => rw [ofText]
  | @piece l rest ls hl hs ih =>
      obtain ⟨kind, text⟩ := l
      obtain ⟨c, tail, rfl⟩ := List.exists_cons_of_ne_nil (ne_nil_of_mem hl.matched)
      show ofText (c :: (tail ++ rest)) = _
      cases hscan : scan c (tail ++ rest) with
      | error fragment =>
          rcases scan_eq_error hscan with ⟨rfl, looked, hopen⟩ | hnone
          · exact absurd (.piece hl hs) (not_munch_of_open hopen _)
          · exact absurd hl (hnone _)
      | ok found =>
          have hsame := hl.unique (longest_of_scan hscan)
          cases hsame
          rw [ofText_of_scan hscan, ih]

/-! ### What a piece stands for -/

/-- Whether lexemes of a kind only separate others. -/
def Kind.separates : Kind → Bool
  | gap | comment => true
  | word | long | double | quoted | operator | punctuation => false

/-- The token that a piece of a text stands for. -/
inductive Stands : Lexeme → Token → Prop where
  /-- A keyword in any case. -/
  | keyword {text : List Char} {name : String} (hname : name ∈ Token.keywords)
      (h : text.map Char.toUpper = name.toList) : Stands ⟨.word, text⟩ ⟨.keyword, name⟩
  /-- Any other word, as it is. -/
  | identifier {text : List Char}
      (h : ∀ name ∈ Token.keywords, text.map Char.toUpper ≠ name.toList) :
      Stands ⟨.word, text⟩ ⟨.identifier, String.ofList text⟩
  | long (text : List Char) : Stands ⟨.long, text⟩ ⟨.long, String.ofList text⟩
  | double (text : List Char) : Stands ⟨.double, text⟩ ⟨.double, String.ofList text⟩
  /-- The last character of each item: itself, the second quote, or what a backslash is before. -/
  | quoted {items : List (List Char)} (h : ∀ item ∈ items, item ∈ itemPattern) :
      Stands ⟨.quoted, '\'' :: (items.flatten ++ ['\''])⟩
        ⟨.string, String.ofList (items.filterMap List.getLast?)⟩
  /-- The other spelling of "not equal". -/
  | unequal : Stands ⟨.operator, ['<', '>']⟩ ⟨.operator, "!="⟩
  | operator {text : List Char} (h : text ≠ ['<', '>']) :
      Stands ⟨.operator, text⟩ ⟨.operator, String.ofList text⟩
  | punctuation (text : List Char) : Stands ⟨.punctuation, text⟩ ⟨.punctuation, String.ofList text⟩

/-! ### Strings -/

theorem decode_item {item : List Char} (h : item ∈ itemPattern) (cs : List Char) :
    decode (item ++ cs) = item.getLast?.toList ++ decode cs := by
  rcases mem_itemPattern.mp h with ⟨c, ⟨hquote, hslash⟩, rfl⟩ | ⟨c, -, rfl⟩ | rfl
  · have hplain : ¬ (c = '\\' ∨ c = '\'') := by
      rintro (rfl | rfl)
      · exact hslash rfl
      · exact hquote rfl
    cases cs with
    | nil =>
        show decode [c] = [c]
        rw [decode, if_neg hplain]
    | cons d cs =>
        show decode (c :: d :: cs) = c :: decode (d :: cs)
        rw [decode, if_neg hplain]
  · show decode ('\\' :: c :: cs) = c :: decode cs
    rw [decode, if_pos (Or.inl rfl)]
  · show decode ('\'' :: '\'' :: cs) = '\'' :: decode cs
    rw [decode, if_pos (Or.inr rfl)]

theorem decode_items {items : List (List Char)} (h : ∀ item ∈ items, item ∈ itemPattern) :
    decode items.flatten = items.filterMap List.getLast? := by
  induction items with
  | nil => rfl
  | cons item items ih =>
      obtain ⟨hitem, hitems⟩ := List.forall_mem_cons.mp h
      rw [List.flatten_cons, decode_item hitem, ih hitems, List.filterMap_cons]
      cases item.getLast? <;> rfl

theorem unquote_items {items : List (List Char)} (h : ∀ item ∈ items, item ∈ itemPattern) :
    unquote ('\'' :: (items.flatten ++ ['\''])) = items.filterMap List.getLast? := by
  rw [unquote, List.tail_cons, List.dropLast_concat, decode_items h]

/-! ### One piece -/

variable {l : Lexeme} {t : Token} {text : List Char}

theorem stands_ofWord (text : List Char) : Stands ⟨.word, text⟩ (Token.ofWord text) := by
  unfold Token.ofWord
  by_cases h : Token.keywords.contains (String.ofList (text.map Char.toUpper)) = true
  · simp only [if_pos h]
    exact .keyword (List.contains_iff_mem.mp h) (String.toList_ofList).symm
  · simp only [if_neg h]
    refine .identifier fun name hname heq => h (List.contains_iff_mem.mpr ?_)
    rwa [heq, String.ofList_toList]

theorem stands_ofOperator (text : List Char) :
    Stands ⟨.operator, text⟩ (Token.ofOperator text) := by
  unfold Token.ofOperator
  by_cases h : text = ['<', '>']
  · subst h
    exact .unequal
  · rw [if_neg h]
    exact .operator h

theorem token?_eq_none (h : l.kind.separates = true) : l.token? = none := by
  obtain ⟨kind, text⟩ := l
  cases kind with
  | gap | comment => rfl
  | word | long | double | quoted | operator | punctuation => cases h

/-- A piece that does not separate stands for the token that it becomes. -/
theorem exists_stands (hl : l.text ∈ l.kind.pattern) (h : ¬ l.kind.separates = true) :
    ∃ t, l.token? = some t ∧ l.Stands t := by
  obtain ⟨kind, text⟩ := l
  cases kind with
  | gap | comment => exact absurd rfl h
  | word => exact ⟨_, rfl, stands_ofWord text⟩
  | long => exact ⟨_, rfl, .long text⟩
  | double => exact ⟨_, rfl, .double text⟩
  | quoted =>
      obtain ⟨items, hitems, hall⟩ := mem_quoted.mp hl
      obtain rfl : text = _ := hitems
      refine ⟨_, rfl, ?_⟩
      rw [unquote_items hall]
      exact .quoted hall
  | operator => exact ⟨_, rfl, stands_ofOperator text⟩
  | punctuation => exact ⟨_, rfl, .punctuation text⟩

/-- A piece stands for one token. -/
theorem token?_of_stands (h : l.Stands t) : l.token? = some t := by
  cases h with
  | @keyword text name hname h =>
      show some (Token.ofWord text) = _
      have hupper : String.ofList (text.map Char.toUpper) = name := by rw [h, String.ofList_toList]
      simp only [Token.ofWord, hupper, if_pos (List.contains_iff_mem.mpr hname)]
  | @identifier text h =>
      show some (Token.ofWord text) = _
      have hupper : ¬ Token.keywords.contains (String.ofList (text.map Char.toUpper)) = true := by
        intro hmem
        exact h _ (List.contains_iff_mem.mp hmem) (String.toList_ofList).symm
      simp only [Token.ofWord, if_neg hupper]
  | long | double | punctuation => rfl
  | @quoted items h =>
      show some (Token.mk .string (String.ofList (unquote _))) = _
      rw [unquote_items h]
  | unequal => rfl
  | @operator text h =>
      show some (Token.ofOperator text) = _
      rw [Token.ofOperator, if_neg h]

/-! ### What all pieces stand for -/

theorem matched_of_munch {ls : List Lexeme} (h : Munch cs ls) :
    ∀ l ∈ ls, l.text ∈ l.kind.pattern := by
  induction h with
  | done => exact nofun
  | piece hl hs ih => exact List.forall_mem_cons.mpr ⟨hl.matched, ih⟩

/-- What pieces become is what those that do not separate stand for, one by one. -/
theorem filterMap_token?_eq_iff {ls : List Lexeme} {ts : List Token}
    (hls : ∀ l ∈ ls, l.text ∈ l.kind.pattern) : ls.filterMap token? = ts ↔
      List.Forall₂ Stands (ls.filter fun l => !l.kind.separates) ts := by
  induction ls generalizing ts with
  | nil => simp [eq_comm]
  | cons l ls ih =>
      obtain ⟨hl, hls⟩ := List.forall_mem_cons.mp hls
      by_cases hsep : l.kind.separates = true
      · rw [List.filterMap_cons_none (token?_eq_none hsep),
          List.filter_cons_of_neg (by simp [hsep]), ih hls]
      · obtain ⟨t, ht, hstands⟩ := exists_stands hl hsep
        rw [List.filterMap_cons_some ht, List.filter_cons_of_pos (by simp [hsep])]
        constructor
        · rintro rfl
          exact .cons hstands ((ih hls).mp rfl)
        · intro h
          cases h with
          | cons hfirst hrest =>
              obtain rfl := Option.some.inj (ht.symm.trans (token?_of_stands hfirst))
              rw [(ih hls).mpr hrest]

/-- The pieces of a text become these tokens. -/
def Reads (cs : List Char) (ts : List Token) : Prop :=
  ∃ ls, Munch cs ls ∧ ls.filterMap token? = ts

theorem Reads.unique {ts ts' : List Token} (h : Reads cs ts) (h' : Reads cs ts') : ts = ts' := by
  obtain ⟨ls, hls, rfl⟩ := h
  obtain ⟨ls', hls', rfl⟩ := h'
  have hsame : ls = ls' :=
    Except.ok.inj ((ofText_of_munch hls).symm.trans (ofText_of_munch hls'))
  rw [hsame]

end Lexeme

theorem Token.ofText_eq_ok_iff_reads {sql : String} {ts : List Token} :
    Token.ofText sql = .ok ts ↔ Lexeme.Reads sql.toList ts := by
  unfold Token.ofText
  constructor
  · intro h
    cases hlexemes : Lexeme.ofText sql.toList with
    | error stuck =>
        rw [hlexemes] at h
        cases h
    | ok ls =>
        rw [hlexemes] at h
        exact ⟨ls, Lexeme.munch_of_ofText hlexemes, Except.ok.inj h⟩
  · rintro ⟨ls, hls, rfl⟩
    rw [Lexeme.ofText_of_munch hls]

/-- **A text has the tokens of its longest matches, and no others.** -/
theorem Token.ofText_eq_ok_iff {sql : String} {ts : List Token} : Token.ofText sql = .ok ts ↔
    ∃ pieces, Lexeme.Munch sql.toList pieces ∧
      List.Forall₂ Lexeme.Stands (pieces.filter fun l => !l.kind.separates) ts := by
  rw [Token.ofText_eq_ok_iff_reads, Lexeme.Reads]
  constructor
  · rintro ⟨pieces, hmunch, hts⟩
    exact ⟨pieces, hmunch,
      (Lexeme.filterMap_token?_eq_iff (Lexeme.matched_of_munch hmunch)).mp hts⟩
  · rintro ⟨pieces, hmunch, hstands⟩
    exact ⟨pieces, hmunch,
      (Lexeme.filterMap_token?_eq_iff (Lexeme.matched_of_munch hmunch)).mpr hstands⟩

end SelectPlanner
