/-
A string is decoded along the items that it was scanned in.

The text between the quotes of a string is looked at twice: by the scanner, which has to find the
quote that closes it, and when the string is decoded.  Both take it item by item, an item being what
stands for one character, but the scanner knows what may be behind a backslash and where a quote
ends the string, and decoding knows neither.  It takes what follows a quote or a backslash for the
second half of a pair, and if nothing follows, what it holds is lost.

They agree because a text is the text of items in one way only.  An `Item` is of one of three kinds
and holds what makes it so; the first character of a text tells the kind, and so the first item is
settled before the others are looked at.  That goes on up to the quote that closes the string.  It
is no item, nor does it start one, as no quote follows it.
-/
import Mathlib
import SelectPlanner.Proofs.LongestMatch

namespace SelectPlanner.Lexeme

/-! ### Items -/

/-- What stands for one character of a string. -/
inductive Item where
  /-- A character as it is. -/
  | plain (c : Char) (not_quote : c ≠ '\'') (not_backslash : c ≠ '\\')
  /-- Two quotes. -/
  | doubled
  /-- A backslash and a character that ends no line. -/
  | escaped (c : Char) (not_newline : c ≠ '\n')

/-- The text of an item. -/
def Item.text : Item → List Char
  | plain c _ _ => [c]
  | doubled => ['\'', '\'']
  | escaped c _ => ['\\', c]

/-- The character that an item stands for. -/
def Item.char : Item → Char
  | plain c _ _ | escaped c _ => c
  | doubled => '\''

/-- Whether an item is a pair. -/
def Item.isPair : Item → Bool
  | plain .. => false
  | doubled | escaped .. => true

/-- The text of items in a row. -/
def spell (items : List Item) : List Char := items.flatMap Item.text

variable {items other : List Item} {item item' : Item} {c : Char}
  {cs rest back text out : List Char}

theorem spell_cons (item : Item) (items : List Item) :
    spell (item :: items) = item.text ++ spell items := rfl

theorem spell_append (front back : List Item) : spell (front ++ back) = spell front ++ spell back :=
  List.flatMap_append

theorem spell_eq_nil : spell items = [] ↔ items = [] := by
  cases items with
  | nil => exact iff_of_true rfl rfl
  | cons item items => cases item <;> exact iff_of_false nofun nofun

theorem exists_item (h : text ∈ itemPattern) : ∃ item : Item, item.text = text := by
  rcases mem_itemPattern.mp h with ⟨c, ⟨hquote, hslash⟩, rfl⟩ | ⟨c, hc, rfl⟩ | rfl
  · exact ⟨.plain c hquote hslash, rfl⟩
  · exact ⟨.escaped c hc, rfl⟩
  · exact ⟨.doubled, rfl⟩

theorem Item.text_mem (item : Item) : item.text ∈ itemPattern := by
  cases item with
  | plain c hquote hslash => exact mem_itemPattern.mpr (Or.inl ⟨c, ⟨hquote, hslash⟩, rfl⟩)
  | doubled => exact mem_itemPattern.mpr (Or.inr (Or.inr rfl))
  | escaped c hc => exact mem_itemPattern.mpr (Or.inr (Or.inl ⟨c, hc, rfl⟩))

theorem exists_spell_flatten {texts : List (List Char)} (h : ∀ text ∈ texts, text ∈ itemPattern) :
    ∃ items, spell items = texts.flatten := by
  induction texts with
  | nil => exact ⟨[], rfl⟩
  | cons text texts ih =>
      obtain ⟨htext, htexts⟩ := List.forall_mem_cons.mp h
      obtain ⟨item, rfl⟩ := exists_item htext
      obtain ⟨items, hitems⟩ := ih htexts
      exact ⟨item :: items, by rw [spell_cons, hitems, List.flatten_cons]⟩

/-- What matches the pattern of strings is items between quotes. -/
theorem exists_spell (h : text ∈ Kind.quoted.pattern) :
    ∃ items, text = '\'' :: (spell items ++ ['\'']) := by
  obtain ⟨texts, rfl, htexts⟩ := mem_quoted.mp h
  obtain ⟨items, hitems⟩ := exists_spell_flatten htexts
  exact ⟨items, by rw [hitems]⟩

/-! ### One way only -/

/-- The first item is settled by its first character. -/
theorem text_append_inj (h : item.text ++ cs = item'.text ++ rest) : item = item' ∧ cs = rest := by
  cases item <;> cases item' <;> simp only [Item.text, List.cons_append, List.nil_append,
    List.cons.injEq] at h <;> grind

/-- No item starts with a quote that no quote follows. -/
theorem text_ne_quote (hrest : rest.head? ≠ some '\'') : item.text ++ cs ≠ '\'' :: rest := by
  intro h
  cases item with
  | plain c hquote _ => exact hquote (List.cons.inj h).1
  | doubled => exact hrest ((List.cons.inj h).2 ▸ rfl)
  | escaped c _ => exact absurd (List.cons.inj h).1 (by decide)

/-- Whatever items a string is taken for, they are its first items: none reaches the quote that
closes it, so long as no quote follows that. -/
theorem spell_front (hrest : rest.head? ≠ some '\'')
    (h : spell items ++ '\'' :: rest = spell other ++ back) :
    ∃ more, items = other ++ more ∧ back = spell more ++ '\'' :: rest := by
  induction other generalizing items with
  | nil => exact ⟨items, rfl, h.symm⟩
  | cons item' other ih =>
      rw [spell_cons, List.append_assoc] at h
      cases items with
      | nil => exact absurd h.symm (text_ne_quote hrest)
      | cons item items =>
          rw [spell_cons, List.append_assoc] at h
          obtain ⟨rfl, hitems⟩ := text_append_inj h
          obtain ⟨more, hmore, hback⟩ := ih hitems
          exact ⟨more, congrArg (item :: ·) hmore, hback⟩

theorem spell_injective (h : spell other = spell items) : other = items := by
  have hquote : spell items ++ ['\''] = spell other ++ ['\''] := by rw [h]
  have hend : ([] : List Char).head? ≠ some '\'' := nofun
  obtain ⟨more, rfl, hmore⟩ := spell_front hend hquote
  have hnil : spell more = [] := by
    simpa using hmore
  rw [spell_eq_nil.mp hnil, List.append_nil]

/-! ### Decoding -/

/-- On the way of decoding a text, this much is put out when that much is left. -/
inductive Decodes : List Char → List Char → List Char → Prop where
  | start (cs : List Char) : Decodes cs [] cs
  | plain {c : Char} {cs out rest : List Char} (hc : ¬ (c = '\\' ∨ c = '\''))
      (h : Decodes cs out rest) : Decodes (c :: cs) (c :: out) rest
  | pair {c d : Char} {cs out rest : List Char} (hc : c = '\\' ∨ c = '\'')
      (h : Decodes cs out rest) : Decodes (c :: d :: cs) (d :: out) rest

theorem decode_of_decodes (h : Decodes cs out rest) : decode cs = out ++ decode rest := by
  induction h with
  | start => rfl
  | @plain c cs out rest hc _ ih =>
      rw [List.cons_append, ← ih]
      cases cs with
      | nil =>
          show decode [c] = [c]
          rw [decode, if_neg hc]
      | cons d cs => rw [decode, if_neg hc]
  | pair hc _ ih => rw [decode, if_pos hc, ih, List.cons_append]

theorem decodes_item (item : Item) (h : Decodes cs out rest) :
    Decodes (item.text ++ cs) (item.char :: out) rest := by
  cases item with
  | plain c hquote hslash => exact .plain (not_or.mpr ⟨hslash, hquote⟩) h
  | doubled => exact .pair (Or.inr rfl) h
  | escaped c hc => exact .pair (Or.inl rfl) h

/-- In front of an item decoding stops, or puts out its character and goes on behind it. -/
theorem decodes_item_cases (h : Decodes (item.text ++ cs) out rest) :
    out = [] ∧ rest = item.text ++ cs ∨
      ∃ later, out = item.char :: later ∧ Decodes cs later rest := by
  cases item with
  | plain c hquote hslash =>
      cases h with
      | start => exact Or.inl ⟨rfl, rfl⟩
      | plain _ h => exact Or.inr ⟨_, rfl, h⟩
      | pair hc _ => exact absurd hc (not_or.mpr ⟨hslash, hquote⟩)
  | doubled =>
      cases h with
      | start => exact Or.inl ⟨rfl, rfl⟩
      | plain hc _ => exact absurd (Or.inr rfl) hc
      | pair _ h => exact Or.inr ⟨_, rfl, h⟩
  | escaped c _ =>
      cases h with
      | start => exact Or.inl ⟨rfl, rfl⟩
      | plain hc _ => exact absurd (Or.inl rfl) hc
      | pair _ h => exact Or.inr ⟨_, rfl, h⟩

/-- Decoding stands between items all the way. -/
theorem decodes_spell : Decodes (spell items) out rest ↔
    ∃ front back, items = front ++ back ∧ out = front.map Item.char ∧ rest = spell back := by
  constructor
  · intro h
    induction items generalizing out with
    | nil =>
        cases h
        exact ⟨[], [], rfl, rfl, rfl⟩
    | cons item items ih =>
        rcases decodes_item_cases h with ⟨rfl, rfl⟩ | ⟨later, rfl, hlater⟩
        · exact ⟨[], item :: items, rfl, rfl, rfl⟩
        · obtain ⟨front, back, rfl, rfl, rfl⟩ := ih hlater
          exact ⟨item :: front, back, rfl, rfl, rfl⟩
  · rintro ⟨front, back, rfl, rfl, rfl⟩
    induction front with
    | nil => exact .start _
    | cons item front ih => exact decodes_item item ih

/-- Half a pair is not the text of items. -/
theorem not_pair_of_spell (h : spell items = [c]) : ¬ (c = '\\' ∨ c = '\'') := by
  cases items with
  | nil => cases h
  | cons item items =>
      cases item with
      | plain d hquote hslash =>
          obtain rfl := (List.cons.inj h).1
          exact not_or.mpr ⟨hslash, hquote⟩
      | doubled | escaped => cases (List.cons.inj h).2

theorem decode_spell (items : List Item) : decode (spell items) = items.map Item.char := by
  have hall : Decodes (spell items) (items.map Item.char) [] :=
    decodes_spell.mpr ⟨items, [], (List.append_nil _).symm, rfl, rfl⟩
  rw [decode_of_decodes hall]
  exact List.append_nil _

/-- A pair is one character longer than what it stands for. -/
theorem length_spell (items : List Item) :
    (spell items).length = items.length + items.countP Item.isPair := by
  induction items with
  | nil => rfl
  | cons item items ih =>
      rw [spell_cons, List.length_append, ih, List.length_cons, List.countP_cons]
      cases item <;> simp [Item.text, Item.isPair] <;> omega

/-! ### Strings as they are scanned -/

/-- Scanning takes the items one after the other. -/
theorem quotedTail_spell (items : List Item) (cs : List Char) :
    quotedTail (spell items ++ cs) = prepend (spell items) (quotedTail cs) := by
  rw [spell, List.flatMap_def]
  refine quotedTail_items (fun text htext => ?_) cs
  obtain ⟨item, -, rfl⟩ := List.mem_map.mp htext
  exact item.text_mem

/-- A scanned string ends at a quote that no quote follows. -/
theorem quoted_of_scan {tail : List Char} (h : scan c cs = .ok (.quoted, tail)) :
    c :: tail ∈ Kind.quoted.pattern ∧ ∃ rest, cs = tail ++ rest ∧ rest.head? ≠ some '\'' := by
  have hmatch := (longest_of_scan h).matched
  refine ⟨hmatch, ?_⟩
  obtain ⟨texts, hc, -⟩ := mem_quoted.mp hmatch
  obtain ⟨rfl, -⟩ := List.cons.inj hc
  rw [scan_quote] at h
  cases hstring : quotedTail cs with
  | error seen =>
      rw [hstring] at h
      cases h
  | ok found =>
      rw [hstring] at h
      cases h
      obtain ⟨_, rest, -, -, hcs, hrest⟩ := closing_of_quotedTail hstring
      exact ⟨rest, hcs, hrest⟩

/-- **A string is decoded along the items that it was scanned in.**  A scanned string matches the
pattern of strings and no quote follows it.  What matches the pattern is, between its quotes, the
text of items in one way.  Decoding puts out the character of each and drops the first half of each
pair; it is never left with half a pair.  Scanning comes to the quote that closes the string by the
same items, and there is no pair that this quote is part of. -/
theorem unquote_along_items :
    (∀ c cs tail, scan c cs = .ok (.quoted, tail) → c :: tail ∈ Kind.quoted.pattern ∧
      ∃ rest, cs = tail ++ rest ∧ rest.head? ≠ some '\'') ∧
    ∀ text ∈ Kind.quoted.pattern, ∃ items : List Item,
      text = '\'' :: (spell items ++ ['\'']) ∧
      (∀ other, text = '\'' :: (spell other ++ ['\'']) → other = items) ∧
      unquote text = items.map Item.char ∧
      text.length = (unquote text).length + items.countP Item.isPair + 2 ∧
      (∀ out rest, Decodes (spell items) out rest → unquote text = out ++ decode rest) ∧
      (∀ out rest, Decodes (spell items) out rest ↔
        ∃ front back, items = front ++ back ∧ out = front.map Item.char ∧ rest = spell back) ∧
      (∀ out c, Decodes (spell items) out [c] → ¬ (c = '\\' ∨ c = '\'')) ∧
      (∀ front back rest, items = front ++ back →
        quotedTail (spell items ++ '\'' :: rest) =
          prepend (spell front) (quotedTail (spell back ++ '\'' :: rest))) ∧
      ∀ rest other back, rest.head? ≠ some '\'' →
        spell items ++ '\'' :: rest = spell other ++ back →
          ∃ more, items = other ++ more ∧ back = spell more ++ '\'' :: rest := by
  refine ⟨fun c cs tail => quoted_of_scan, fun text htext => ?_⟩
  obtain ⟨items, rfl⟩ := exists_spell htext
  have hdecode : unquote ('\'' :: (spell items ++ ['\''])) = items.map Item.char := by
    rw [unquote, List.tail_cons, List.dropLast_concat, decode_spell]
  refine ⟨items, rfl, fun other hother => ?_, hdecode, ?_, fun out rest h => ?_,
    fun out rest => decodes_spell, fun out c h => ?_, ?_, fun rest other back => spell_front⟩
  · exact spell_injective (List.append_cancel_right (List.cons.inj hother).2).symm
  · rw [hdecode, List.length_map, List.length_cons, List.length_append, length_spell]
    rfl
  · rw [hdecode, ← decode_spell, decode_of_decodes h]
  · obtain ⟨-, back, -, -, hback⟩ := decodes_spell.mp h
    exact not_pair_of_spell hback.symm
  · rintro front back rest rfl
    rw [spell_append, List.append_assoc, quotedTail_spell]

/-- A string with a doubled quote, a quote and a backslash behind a backslash, and the last of these
in front of the quote that closes it. -/
theorem unquote_along_items_mixed :
    ∃ items : List Item, "'it''s \\'\\\\'".toList = '\'' :: (spell items ++ ['\'']) ∧
      items.map Item.char = "it's '\\".toList ∧ items.countP Item.isPair = 3 := by
  have hscan : scan '\'' "it''s \\'\\\\' AS x".toList = .ok (.quoted, "it''s \\'\\\\'".toList) := by
    decide +kernel
  obtain ⟨hscanned, hmatched⟩ := unquote_along_items
  obtain ⟨items, htext, -, hdecode, hlength, -⟩ := hmatched _ (hscanned _ _ _ hscan).1
  have hvalue : unquote "'it''s \\'\\\\'".toList = "it's '\\".toList := by decide +kernel
  refine ⟨items, htext, hdecode.symm.trans hvalue, ?_⟩
  change "'it''s \\'\\\\'".toList.length =
    (unquote "'it''s \\'\\\\'".toList).length + items.countP Item.isPair + 2 at hlength
  rw [hvalue] at hlength
  have hlong : "'it''s \\'\\\\'".toList.length = 12 := by decide +kernel
  have hshort : "it's '\\".toList.length = 7 := by decide +kernel
  omega

end SelectPlanner.Lexeme
