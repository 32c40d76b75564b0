/-
Tokens read back from any of their spellings.

A token can be written in more than one way: keywords in any case, "not equal" as either of two
symbols, and the characters of a string with or without a backslash.  `Token.Spelling` says how,
from the side of the token.  Tokens in a row have a blank behind each but the last, and behind the
blank whatever is passed over: blanks, and comments with their line ends.

However tokens are written and whatever is passed over in front of them, the text has exactly these
tokens.  What is passed over behind the last one needs no blank in front of it either, but in one
case: a comment right behind a hyphen takes the hyphen in.
-/
import Mathlib
import SelectPlanner.Proofs.Spacing

namespace SelectPlanner

namespace Token

/-! ### How tokens are written -/

/-- What can stand between quotes for a string. -/
inductive Quotes : List Char → List Char → Prop where
  | nil : Quotes [] []
  /-- A character as it is. -/
  | plain {c : Char} {value text : List Char} (hquote : c ≠ '\'') (hslash : c ≠ '\\')
      (h : Quotes value text) : Quotes (c :: value) (c :: text)
  /-- A character behind a backslash. -/
  | escaped {c : Char} {value text : List Char} (hc : c ≠ '\n') (h : Quotes value text) :
      Quotes (c :: value) ('\\' :: c :: text)
  /-- A quote behind a quote. -/
  | doubled {value text : List Char} (h : Quotes value text) :
      Quotes ('\'' :: value) ('\'' :: '\'' :: text)

/-- How a token can be written. -/
inductive Spelling : Token → List Char → Prop where
  /-- A word that is a keyword in no case. -/
  | identifier {word : List Char} (h : word ∈ Lexeme.Kind.word.pattern)
      (hname : ∀ name ∈ keywords, word.map Char.toUpper ≠ name.toList) :
      Spelling ⟨.identifier, String.ofList word⟩ word
  /-- A keyword in any case. -/
  | keyword {name : String} {word : List Char} (hname : name ∈ keywords)
      (h : word.map Char.toUpper = name.toList) : Spelling ⟨.keyword, name⟩ word
  | long {digits : List Char} (h : digits ∈ Lexeme.Kind.long.pattern) :
      Spelling ⟨.long, String.ofList digits⟩ digits
  | double {decimal : List Char} (h : decimal ∈ Lexeme.Kind.double.pattern) :
      Spelling ⟨.double, String.ofList decimal⟩ decimal
  | operator {symbol : List Char} (h : symbol ∈ Lexeme.operatorTexts) (hne : symbol ≠ ['<', '>']) :
      Spelling ⟨.operator, String.ofList symbol⟩ symbol
  /-- The other spelling of "not equal". -/
  | unequal : Spelling ⟨.operator, "!="⟩ ['<', '>']
  | punctuation {symbol : List Char} (h : symbol ∈ Lexeme.separatorTexts) :
      Spelling ⟨.punctuation, String.ofList symbol⟩ symbol
  | string {value text : List Char} (h : Quotes value text) :
      Spelling ⟨.string, String.ofList value⟩ ('\'' :: (text ++ ['\'']))

/-- What is passed over: blanks, and comments with their line ends. -/
inductive Skipped : List Char → Prop where
  | nil : Skipped []
  | blank {b : Char} {text : List Char} (hb : Lexeme.Blank b) (h : Skipped text) :
      Skipped (b :: text)
  | comment {line text : List Char} (hline : ∀ c ∈ line, c ≠ '\n') (h : Skipped text) :
      Skipped ('-' :: '-' :: (line ++ '\n' :: text))

/-- Tokens in a row, with a blank and what is passed over behind each but the last. -/
inductive Spaced : List Token → List Char → Prop where
  | nil : Spaced [] []
  | last {t : Token} {text : List Char} (h : t.Spelling text) : Spaced [t] text
  | more {t u : Token} {ts : List Token} {text skip rest : List Char} {b : Char}
      (h : t.Spelling text) (hb : Lexeme.Blank b) (hskip : Skipped skip)
      (hs : Spaced (u :: ts) rest) : Spaced (t :: u :: ts) (text ++ b :: (skip ++ rest))

variable {t : Token} {ts : List Token} {text value body trail lead : List Char}

/-! ### A spelling is a piece -/

/-- What stands between the quotes is a row of items, each of one character of the string. -/
theorem Quotes.exists_items (h : Quotes value text) :
    ∃ items : List (List Char), (∀ item ∈ items, item ∈ Lexeme.itemPattern) ∧
      text = items.flatten ∧ value = items.filterMap List.getLast? := by
  induction h with
  | nil => exact ⟨[], nofun, rfl, rfl⟩
  | @plain c value text hquote hslash _ ih =>
      obtain ⟨items, hitems, rfl, rfl⟩ := ih
      have hitem : [c] ∈ Lexeme.itemPattern :=
        Lexeme.mem_itemPattern.mpr (Or.inl ⟨c, ⟨hquote, hslash⟩, rfl⟩)
      exact ⟨[c] :: items, List.forall_mem_cons.mpr ⟨hitem, hitems⟩, rfl, rfl⟩
  | @escaped c value text hc _ ih =>
      obtain ⟨items, hitems, rfl, rfl⟩ := ih
      have hitem : ['\\', c] ∈ Lexeme.itemPattern :=
        Lexeme.mem_itemPattern.mpr (Or.inr (Or.inl ⟨c, hc, rfl⟩))
      exact ⟨['\\', c] :: items, List.forall_mem_cons.mpr ⟨hitem, hitems⟩, rfl, rfl⟩
  | doubled _ ih =>
      obtain ⟨items, hitems, rfl, rfl⟩ := ih
      have hitem : ['\'', '\''] ∈ Lexeme.itemPattern :=
        Lexeme.mem_itemPattern.mpr (Or.inr (Or.inr rfl))
      exact ⟨['\'', '\''] :: items, List.forall_mem_cons.mpr ⟨hitem, hitems⟩, rfl, rfl⟩

/-- Every string can be written. -/
theorem exists_quotes (value : List Char) : ∃ text, Quotes value text := by
  induction value with
  | nil => exact ⟨[], .nil⟩
  | cons c value ih =>
      obtain ⟨text, h⟩ := ih
      by_cases hquote : c = '\''
      · subst hquote
        exact ⟨_, .doubled h⟩
      by_cases hslash : c = '\\'
      · subst hslash
        exact ⟨_, .escaped (by decide) h⟩
      · exact ⟨_, .plain hquote hslash h⟩

theorem letter_of_toUpper {c : Char} (h : Lexeme.Letter c.toUpper) : Lexeme.Letter c := by
  unfold Char.toUpper at h
  split at h
  · next hlower => exact Or.inr (Or.inl hlower)
  · exact h

/-- A keyword is a word in any case. -/
theorem word_of_keyword {name : String} {word : List Char} (hname : name ∈ keywords)
    (h : word.map Char.toUpper = name.toList) : word ∈ Lexeme.Kind.word.pattern := by
  have table : ∀ name ∈ keywords, name.toList ≠ [] ∧ ∀ c ∈ name.toList, Lexeme.Letter c := by
    simp [keywords, Lexeme.Letter]
  obtain ⟨hne, hletters⟩ := table name hname
  rw [← h] at hne hletters
  obtain ⟨c, rest, rfl⟩ := List.exists_cons_of_ne_nil (mt List.map_eq_nil_iff.mpr hne)
  have hword : ∀ d ∈ c :: rest, Lexeme.Letter d := fun d hd =>
    letter_of_toUpper (hletters d.toUpper (List.mem_map_of_mem hd))
  obtain ⟨hc, hrest⟩ := List.forall_mem_cons.mp hword
  exact Lexeme.mem_word.mpr ⟨c, rest, rfl, hc, fun d hd => Or.inl (hrest d hd)⟩

/-- A spelling matches a pattern, and what matches stands for the token. -/
theorem Spelling.exists_piece (h : t.Spelling text) :
    ∃ kind : Lexeme.Kind, text ∈ kind.pattern ∧ Lexeme.Stands ⟨kind, text⟩ t := by
  cases h with
  | identifier h hname => exact ⟨.word, h, .identifier hname⟩
  | keyword hname h => exact ⟨.word, word_of_keyword hname h, .keyword hname h⟩
  | long h => exact ⟨.long, h, .long _⟩
  | double h => exact ⟨.double, h, .double _⟩
  | operator h hne => exact ⟨.operator, h, .operator hne⟩
  | unequal => exact ⟨.operator, Lexeme.mem_operator.mpr (by decide), .unequal⟩
  | punctuation h => exact ⟨.punctuation, h, .punctuation _⟩
  | string h =>
      obtain ⟨items, hitems, rfl, rfl⟩ := h.exists_items
      exact ⟨.quoted, Lexeme.mem_quoted.mpr ⟨items, rfl, hitems⟩, .quoted hitems⟩

/-! ### What is passed over -/

theorem Skipped.reads (h : Skipped lead) {cs : List Char} (hcs : Lexeme.Reads cs ts) :
    Lexeme.Reads (lead ++ cs) ts := by
  induction h with
  | nil => exact hcs
  | blank hb _ ih => exact ih.blank hb
  | @comment line text hline _ ih =>
      rw [List.cons_append, List.cons_append, List.append_assoc, List.cons_append]
      exact (ih.blank (Or.inr (Or.inr (Or.inr (Or.inl rfl))))).comment hline

/-- What is passed over starts with a blank or with two hyphens. -/
theorem Skipped.stopped (h : Skipped trail) : Lexeme.Stopped trail := by
  cases h with
  | nil => exact nofun
  | blank hb _ => exact Lexeme.stopped_cons (Lexeme.stops_of_blank hb)
  | comment _ _ => exact Lexeme.stopped_cons (by decide)

/-- A hyphen in front of a comment belongs to the comment. -/
theorem Skipped.hyphen (h : Skipped trail) (hhead : trail.head? = some '-') :
    Skipped ('-' :: trail) := by
  cases h with
  | nil => cases hhead
  | blank hb _ =>
      obtain rfl := Option.some.inj hhead
      exact absurd hb (by decide)
  | @comment line text hline h =>
      have hlonger : ∀ c ∈ '-' :: line, c ≠ '\n' :=
        List.forall_mem_cons.mpr ⟨by decide, hline⟩
      exact .comment hlonger h

/-! ### Tokens in a row -/

/-- The hyphen as an operator. -/
def minus : Token := ⟨.operator, "-"⟩

/-- The last token is a hyphen, and a comment is right behind it. -/
def Joins (ts : List Token) (trail : List Char) : Prop :=
  ts.getLast? = some minus ∧ trail.head? = some '-'

/-- A token in front of a blank is read, and what is passed over is not. -/
theorem Spelling.reads_blank (h : t.Spelling text) {b : Char} (hb : Lexeme.Blank b)
    {skip rest : List Char} (hskip : Skipped skip) (hrest : Lexeme.Reads rest ts) :
    Lexeme.Reads (text ++ b :: (skip ++ rest)) (t :: ts) := by
  obtain ⟨kind, hmatch, hstands⟩ := h.exists_piece
  refine ((hskip.reads hrest).blank hb).piece (l := ⟨kind, text⟩) hmatch hstands
    (Lexeme.stopped_cons (Lexeme.stops_of_blank hb)) ?_
  rintro ⟨-, hhead⟩
  obtain rfl := Option.some.inj hhead
  exact absurd hb (by decide)

theorem Spelling.of_minus (h : minus.Spelling text) : text = ['-'] := by
  generalize htoken : minus = t at h
  cases h with
  | operator h hne =>
      have hsymbol := congrArg (fun t : Token => t.text.toList) htoken
      rw [String.toList_ofList] at hsymbol
      exact hsymbol.symm
  | unequal => exact absurd htoken (by decide)
  | identifier | keyword | long | double | punctuation | string =>
      exact absurd (congrArg Token.kind htoken) nofun

/-- The last token is read in front of what is passed over, unless the two join. -/
theorem Spelling.reads_last (h : t.Spelling text) (htrail : Skipped trail)
    (hjoins : ¬ (t = minus ∧ trail.head? = some '-')) : Lexeme.Reads (text ++ trail) [t] := by
  obtain ⟨kind, hmatch, hstands⟩ := h.exists_piece
  have htrailReads : Lexeme.Reads trail [] := by
    simpa using htrail.reads Lexeme.reads_nil
  refine htrailReads.piece (l := ⟨kind, text⟩) hmatch hstands htrail.stopped ?_
  rintro ⟨hpiece, hhead⟩
  rw [hpiece] at hstands
  exact hjoins ⟨Option.some.inj (Lexeme.token?_of_stands hstands).symm, hhead⟩

theorem Spaced.reads (h : Spaced ts body) (htrail : Skipped trail) (hjoins : ¬ Joins ts trail) :
    Lexeme.Reads (body ++ trail) ts := by
  induction h with
  | nil => simpa using htrail.reads Lexeme.reads_nil
  | last h => exact h.reads_last htrail fun ⟨ht, hhead⟩ => hjoins ⟨congrArg some ht, hhead⟩
  | @more t u ts text skip rest b h hb hskip _ ih =>
      have hrest : ¬ Joins (u :: ts) trail := by
        rintro ⟨hlast, hhead⟩
        exact hjoins ⟨by rwa [List.getLast?_cons_cons], hhead⟩
      simpa using h.reads_blank hb hskip (ih hrest)

/-- A hyphen that a comment takes in is lost, and no other token. -/
theorem Spaced.reads_dropLast (h : Spaced ts body) (htrail : Skipped trail)
    (hjoins : Joins ts trail) : Lexeme.Reads (body ++ trail) ts.dropLast := by
  induction h with
  | nil => cases hjoins.1
  | @last t text h =>
      obtain rfl : t = minus := Option.some.inj hjoins.1
      obtain rfl := h.of_minus
      simpa using (htrail.hyphen hjoins.2).reads Lexeme.reads_nil
  | @more t u ts text skip rest b h hb hskip _ ih =>
      have hrest : Joins (u :: ts) trail := ⟨by rw [← hjoins.1, List.getLast?_cons_cons], hjoins.2⟩
      simpa using h.reads_blank hb hskip (ih hrest)

end Token

open Token

/-- **Tokens are read back from any of their spellings.**  The one exception is a hyphen at the end
with a comment right behind it.  And a string never gets out of its quotes: whatever follows them,
if it is no quote, is read as if it stood alone. -/
theorem Token.ofText_spelled {ts : List Token} {lead body trail : List Char}
    (hlead : Skipped lead) (hbody : Spaced ts body) (htrail : Skipped trail) :
    (ofText (String.ofList (lead ++ body ++ trail)) = .ok ts ↔ ¬ Joins ts trail) ∧
      ∀ value, (∃ text, Quotes value text) ∧
        ∀ text rest us, Quotes value text → rest.head? ≠ some '\'' →
          (ofText (String.ofList ('\'' :: (text ++ ['\'']) ++ rest)) = .ok us ↔
            ∃ vs, us = ⟨.string, String.ofList value⟩ :: vs ∧
              ofText (String.ofList rest) = .ok vs) := by
  refine ⟨?_, fun value => ⟨exists_quotes value, fun text rest us htext hrest => ?_⟩⟩
  · rw [ofText_eq_ok_iff_reads, String.toList_ofList, List.append_assoc]
    constructor
    · intro hreads hjoins
      have hlost := hreads.unique (hlead.reads (hbody.reads_dropLast htrail hjoins))
      have hlength := congrArg List.length hlost
      rw [List.length_dropLast] at hlength
      have hnil : ts = [] := List.length_eq_zero_iff.mp (by omega)
      rw [hnil] at hjoins
      cases hjoins.1
    · intro hjoins
      exact hlead.reads (hbody.reads htrail hjoins)
  · simp only [ofText_eq_ok_iff_reads, String.toList_ofList]
    obtain ⟨items, hitems, rfl, rfl⟩ := htext.exists_items
    exact Lexeme.reads_append_iff (l := ⟨.quoted, '\'' :: (items.flatten ++ ['\''])⟩)
      (Lexeme.longest_quoted_of_items hitems hrest) (.quoted hitems)

/-- A keyword in two cases, a string with a quote, a backslash and hyphens in it, comments in front,
between and behind, and a hyphen at the end. -/
theorem Token.ofText_spelled_mixed :
    ofText "--a\nsElEcT\t'it''s\\\\ \\--' --b\n<> -\n--c\n" =
      .ok [⟨.keyword, "SELECT"⟩, ⟨.string, "it's\\ --"⟩, ⟨.operator, "!="⟩, minus] := by
  have hlead : Skipped "--a\n".toList :=
    .comment (List.forall_mem_singleton.mpr (by decide)) .nil
  have htrail : Skipped "\n--c\n".toList :=
    .blank (by decide) (.comment (List.forall_mem_singleton.mpr (by decide)) .nil)
  have hstring : Quotes "it's\\ --".toList "it''s\\\\ \\--".toList :=
    .plain (by decide) (by decide) <| .plain (by decide) (by decide) <| .doubled <|
      .plain (by decide) (by decide) <| .escaped (by decide) <| .plain (by decide) (by decide) <|
      .escaped (by decide) <| .plain (by decide) (by decide) .nil
  have hkeyword : Spelling ⟨.keyword, "SELECT"⟩ "sElEcT".toList := .keyword (by decide) (by decide)
  have hskip : Skipped "--b\n".toList :=
    .comment (List.forall_mem_singleton.mpr (by decide)) .nil
  have hunequal : Spelling ⟨.operator, "!="⟩ "<>".toList := .unequal
  have hhyphen : Spelling minus "-".toList := .operator (by decide) (by decide)
  have hbody : Spaced
      [⟨.keyword, "SELECT"⟩, ⟨.string, "it's\\ --"⟩, ⟨.operator, "!="⟩, minus]
      "sElEcT\t'it''s\\\\ \\--' --b\n<> -".toList :=
    .more hkeyword (Or.inr (Or.inl rfl)) .nil <| .more (.string hstring) (Or.inl rfl) hskip <|
      .more hunequal (Or.inl rfl) .nil <| .last hhyphen
  exact (ofText_spelled hlead hbody htrail).1.mpr fun hjoins => absurd hjoins.2 (by decide)

/-- A comment right behind a hyphen takes it in, so not every way to write tokens is read back. -/
theorem Token.not_ofText_spelled_hyphen :
    ¬ ∀ (ts : List Token) (lead body trail : List Char), Skipped lead → Spaced ts body →
      Skipped trail → ofText (String.ofList (lead ++ body ++ trail)) = .ok ts := by
  intro kept
  have hhyphen : Spelling minus ['-'] := .operator (by decide) (by decide)
  have hline : ∀ c ∈ ([] : List Char), c ≠ '\n' := nofun
  have hcomment : Skipped ['-', '-', '\n'] := .comment hline .nil
  have hread := kept [minus] [] ['-'] ['-', '-', '\n'] .nil (.last hhyphen) hcomment
  have hnone : ofText (String.ofList ['-', '-', '-', '\n']) = .ok [] := by cbv
  cases hnone.symm.trans hread

end SelectPlanner
