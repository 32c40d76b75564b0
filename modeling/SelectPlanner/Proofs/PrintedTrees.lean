/-
A statement is read back from what it is printed as.

Printing writes no parentheses, so a tree that was put together by hand may be read back as another
one.  A tree that was read may not: it is bracketed as precedence asks for, and canonical trees are
read back from whatever they are written with.  What is left is that the printed text has the tokens
of the tree.  Behind every printed piece comes a blank, a comma or the end, so no piece runs into
the next; the names are words and no keywords, because they were read as names.

Two kinds of literal are printed without regard to how they are read: a string gets no backslashes,
and a number whose digits would be too many gets an exponent without a point, or is a word.  So the
strings must have no quote and no backslash in them, and the numbers must be printed as digits with
a point among them.
-/
import Mathlib
import SelectPlanner.Proofs.Acceptance
import SelectPlanner.Proofs.ParserCompleteness
import SelectPlanner.Proofs.Spellings

namespace SelectPlanner

open Lexeme (Reads Stopped)

/-! ### Printed pieces -/

namespace Token

/-- A text is over or starts with a blank or a comma. -/
def Apart (rest : List Char) : Prop := ∀ b ∈ rest.head?, b = ' ' ∨ b = ','

theorem apart_blank (rest : List Char) : Apart (' ' :: rest) := by
  rintro b ⟨⟩
  exact Or.inl rfl

theorem apart_comma (rest : List Char) : Apart (',' :: rest) := by
  rintro b ⟨⟩
  exact Or.inr rfl

/-- In front of any text that is apart, a text adds these tokens. -/
def Prints (text : List Char) (ts : List Token) : Prop :=
  ∀ rest us, Apart rest → Reads rest us → Reads (text ++ rest) (ts ++ us)

variable {t : Token} {ts us : List Token} {text front back : List Char}

/-- A spelling with the token's own text in it. -/
theorem Spelling.of_toList {kind : Kind} {name : String}
    (h : Spelling ⟨kind, String.ofList name.toList⟩ text) : Spelling ⟨kind, name⟩ text := by
  rwa [String.ofList_toList] at h

theorem Spelling.prints (h : t.Spelling text) : Prints text [t] := by
  intro rest us hrest hreads
  obtain ⟨kind, hmatch, hstands⟩ := h.exists_piece
  have hstop : Stopped rest := by
    intro b hb
    rcases hrest b hb with rfl | rfl <;> decide
  refine hreads.piece (l := ⟨kind, text⟩) hmatch hstands hstop ?_
  rintro ⟨-, hhead⟩
  rcases hrest '-' hhead with h | h <;> exact absurd h (by decide)

/-- Texts with a blank between them. -/
theorem Prints.blank (h : Prints front ts) (h' : Prints back us) :
    Prints (front ++ ' ' :: back) (ts ++ us) := by
  intro rest vs hrest hreads
  have hback : Reads (' ' :: (back ++ rest)) (us ++ vs) :=
    (h' rest vs hrest hreads).blank (Or.inl rfl)
  simpa using h _ _ (apart_blank _) hback

/-- Texts with a comma and a blank between them. -/
theorem Prints.comma (h : Prints front ts) (h' : Prints back us) :
    Prints (front ++ ',' :: ' ' :: back) (ts ++ ⟨.punctuation, ","⟩ :: us) := by
  intro rest vs hrest hreads
  have hcomma : Spelling ⟨.punctuation, ","⟩ [','] := .punctuation (by decide)
  have hback : Reads (' ' :: (back ++ rest)) (us ++ vs) :=
    (h' rest vs hrest hreads).blank (Or.inl rfl)
  simpa using h _ _ (apart_comma _) (hcomma.prints _ _ (apart_blank _) hback)

/-- A printed text has its tokens. -/
theorem Prints.ofText {text : String} (h : Prints text.toList ts) : ofText text = .ok ts := by
  have hreads := h [] [] nofun Lexeme.reads_nil
  rw [List.append_nil, List.append_nil] at hreads
  exact ofText_eq_ok_iff_reads.mpr hreads

/-! ### Keywords, operators and names -/

theorem prints_keyword {word : String} (h : word ∈ keywords) :
    Prints word.toList [⟨.keyword, word⟩] := by
  have table : ∀ word ∈ keywords, word.toList.map Char.toUpper = word.toList := by decide
  exact (Spelling.keyword h (table word h)).prints

theorem prints_ofInfix {op : String} (h : op ∈ Ast.infixes) : Prints op.toList [ofInfix op] := by
  unfold ofInfix
  by_cases hword : op = "AND" ∨ op = "OR"
  · rw [if_pos hword]
    refine prints_keyword ?_
    rcases hword with rfl | rfl <;> decide
  · rw [if_neg hword]
    have table : ∀ op ∈ Ast.infixes, op ≠ "AND" → op ≠ "OR" →
        op.toList ∈ Lexeme.operatorTexts ∧ op.toList ≠ ['<', '>'] := by decide
    obtain ⟨hmem, hne⟩ := table op h (fun heq => hword (Or.inl heq)) fun heq => hword (Or.inr heq)
    exact (Spelling.operator hmem hne).of_toList.prints

/-- A name is printed as a word. -/
def IsName (name : String) : Prop := Spelling ⟨.identifier, name⟩ name.toList

theorem isName_of_written {name : String} (h : Written ⟨.identifier, name⟩) : IsName name := by
  obtain ⟨l, hl, hstands⟩ := h
  cases hstands with
  | @identifier text hnone =>
      have hspelling := Spelling.identifier hl hnone
      rwa [IsName, String.toList_ofList]

end Token

/-! ### What a tree is written with -/

/-- What is printed for the number is digits with a point among them, and reads as the number. -/
def Double.Positional (d : Double) : Prop :=
  ∃ whole ∈ Lexeme.wholePattern, ∃ part ∈ Lexeme.wholePattern,
    d.render.toList = whole ++ '.' :: part ∧ Double.ofText? d.render.toList = some d

namespace Ast

open Token (Prints IsName Quotes Written prints_keyword prints_ofInfix)

variable {e n : Ast} {items : List Ast} {ts us : List Token} {sql : String}

/-- These tokens have among them what the tree is written with. -/
def HeldIn (n : Ast) (ts : List Token) : Prop := ∃ us, n.Flattens us ∧ us ⊆ ts

theorem HeldIn.mono (h : n.HeldIn us) (hsub : us ⊆ ts) : n.HeldIn ts := by
  obtain ⟨vs, hvs, hsub'⟩ := h
  exact ⟨vs, hvs, List.Subset.trans hsub' hsub⟩

theorem heldIn_items (h : FlattensItems items ts)
    (hitems : ∀ item ∈ items, ∀ us, item.Flattens us → ∀ n ∈ item.nodes, n.HeldIn us) :
    ∀ n ∈ nodesOf items, n.HeldIn ts := by
  induction items generalizing ts with
  | nil => exact nofun
  | cons item items ih =>
      obtain ⟨hitem, hrest⟩ := List.forall_mem_cons.mp hitems
      intro n hn
      rw [nodesOf] at hn
      cases h with
      | last h =>
          rw [nodesOf, List.append_nil] at hn
          exact hitem ts h n hn
      | @more _ _ ts us h hs =>
          rcases List.mem_append.mp hn with hn | hn
          · exact (hitem ts h n hn).mono (by simp)
          · exact (ih hs hrest n hn).mono (by simp)

/-- What a tree is written with has in it what each of its nodes is written with. -/
theorem heldIn_nodes (hb : e.Bracketed) (h : e.Flattens ts) : ∀ n ∈ e.nodes, n.HeldIn ts := by
  induction hb generalizing ts with
  | identifier | string | long | double =>
      intro n hn
      rw [nodes] at hn
      obtain rfl := List.mem_singleton.mp hn
      exact ⟨ts, h, List.Subset.refl ts⟩
  | binary _ _ _ _ _ _ ihl ihr =>
      intro n hn
      rw [nodes] at hn
      rcases List.mem_cons.mp hn with rfl | hn
      · exact ⟨ts, h, List.Subset.refl ts⟩
      cases h with
      | binary op hls hrs =>
          rcases List.mem_append.mp hn with hn | hn
          · exact (ihl hls n hn).mono (by simp)
          · exact (ihr hrs n hn).mono (by simp)
  | renamed _ _ ih =>
      intro n hn
      rw [nodes] at hn
      rcases List.mem_cons.mp hn with rfl | hn
      · exact ⟨ts, h, List.Subset.refl ts⟩
      cases h with
      | renamed name h => exact (ih h n hn).mono (by simp)
  | @select projection condition table _ _ _ ihitems ihcondition =>
      intro n hn
      by_cases hself : n = select projection condition table
      · subst hself
        exact ⟨ts, h, List.Subset.refl ts⟩
      cases h with
      | select table h =>
          rw [nodes] at hn
          have hinside := List.mem_of_ne_of_mem hself hn
          exact (heldIn_items h (fun item hitem us => ihitems item hitem) n hinside).mono (by simp)
      | selectWhere table h hc =>
          rw [nodes] at hn
          have hinside := List.mem_of_ne_of_mem hself hn
          rcases List.mem_append.mp hinside with hn | hn
          · exact (heldIn_items h (fun item hitem us => ihitems item hitem) n hn).mono (by simp)
          · refine (ihcondition _ rfl hc n hn).mono ?_
            intro t ht
            simp [ht]

/-! ### Trees that print as they are written -/

/-- All these nodes can be written, and what is printed for them is how. -/
structure Printable (nodes : List Ast) : Prop where
  writable : Writable nodes
  identifiers : ∀ name, identifier name ∈ nodes → IsName name
  renamings : ∀ expr name, renamed expr name ∈ nodes → IsName name
  tables : ∀ projection condition table, select projection condition table ∈ nodes → IsName table
  /-- No string needs a backslash. -/
  strings : ∀ value, string value ∈ nodes → Quotes value.toList value.toList
  doubles : ∀ value, double value ∈ nodes → value.Positional

theorem Printable.mono {ns ms : List Ast} (h : Printable ms) (hsub : ns ⊆ ms) : Printable ns :=
  ⟨h.writable.mono hsub, fun name hn => h.identifiers name (hsub hn),
    fun expr name hn => h.renamings expr name (hsub hn),
    fun projection condition table hn => h.tables projection condition table (hsub hn),
    fun value hn => h.strings value (hsub hn), fun value hn => h.doubles value (hsub hn)⟩

/-- Strings without quotes and backslashes are printed as they are. -/
theorem quotes_plain {value : List Char} (hquote : '\'' ∉ value) (hslash : '\\' ∉ value) :
    Quotes value value := by
  induction value with
  | nil => exact .nil
  | cons c value ih =>
      rw [List.mem_cons, not_or] at hquote hslash
      exact .plain (Ne.symm hquote.1) (Ne.symm hslash.1) (ih hquote.2 hslash.2)

theorem nonneg_of_long? {text : String} {value : Int64} (hlexical : (⟨.long, text⟩ : Token).Lexical)
    (h : Numeral.long? text.toList = some value) : 0 ≤ value.toInt := by
  obtain ⟨hne, hdigits⟩ := Lexeme.mem_long.mp (hlexical.long rfl)
  obtain ⟨-, hvalue⟩ := Numeral.toInt_of_long? (Numeral.natural?_of_digits hne hdigits) h
  rw [hvalue]
  exact Int.natCast_nonneg _

/-- Where the literals are printed as they can be read, what was read is printable: its names and
operators are tokens of a text. -/
theorem printable_of_flattens (hb : e.Bracketed) (h : e.Flattens ts)
    (hlegal : ∀ t ∈ ts, Grammar.Legal t) (hwritten : ∀ t ∈ ts, t.Written)
    (hstrings : ∀ value, string value ∈ e.nodes → '\'' ∉ value.toList ∧ '\\' ∉ value.toList)
    (hdoubles : ∀ value, double value ∈ e.nodes → value.Positional) : Printable e.nodes := by
  have held := heldIn_nodes hb h
  refine ⟨⟨?_, ?_, ?_⟩, ?_, ?_, ?_, ?_, hdoubles⟩
  · intro left op right hn
    obtain ⟨us, hus, hsub⟩ := held _ hn
    cases hus with
    | binary op hl hr => exact Grammar.known_of_legal (hlegal _ (hsub (by simp)))
  · intro value hn
    obtain ⟨us, hus, hsub⟩ := held _ hn
    cases hus with
    | long hread => exact nonneg_of_long? (hlegal _ (hsub (by simp))).lexical hread
  · intro value hn
    obtain ⟨whole, hwhole, part, hpart, htext, hread⟩ := hdoubles value hn
    exact ⟨whole, hwhole, part, hpart, by rwa [htext] at hread⟩
  · intro name hn
    obtain ⟨us, hus, hsub⟩ := held _ hn
    cases hus with
    | identifier name => exact Token.isName_of_written (hwritten _ (hsub (by simp)))
  · intro expr name hn
    obtain ⟨us, hus, hsub⟩ := held _ hn
    cases hus with
    | renamed name h => exact Token.isName_of_written (hwritten _ (hsub (by simp)))
  · intro projection condition table hn
    obtain ⟨us, hus, hsub⟩ := held _ hn
    cases hus with
    | select table h => exact Token.isName_of_written (hwritten _ (hsub (by simp)))
    | selectWhere table h hc => exact Token.isName_of_written (hwritten _ (hsub (by simp)))
  · intro value hn
    obtain ⟨hquote, hslash⟩ := hstrings value hn
    exact quotes_plain hquote hslash

/-! ### Printing -/

/-- The tree is printed with tokens that it can be written with. -/
def Printed (e : Ast) : Prop := ∃ ts, e.Flattens ts ∧ Prints e.render.toList ts

theorem printed_items (hne : items ≠ []) (h : ∀ item ∈ items, item.Printed) :
    ∃ ts, FlattensItems items ts ∧ Prints (renderItems items).toList ts := by
  induction items with
  | nil => exact absurd rfl hne
  | cons item items ih =>
      obtain ⟨⟨ts, hts, hprints⟩, hitems⟩ := List.forall_mem_cons.mp h
      cases items with
      | nil =>
          refine ⟨ts, .last hts, ?_⟩
          rwa [renderItems]
      | cons next items =>
          obtain ⟨us, hus, hprints'⟩ := ih (List.cons_ne_nil _ _) hitems
          refine ⟨_, .more hts hus, ?_⟩
          have hcomma := hprints.comma hprints'
          rw [renderItems]
          · simpa using hcomma
          · exact List.cons_ne_nil _ _

theorem printed_of_bracketed (hb : e.Bracketed) (h : Printable e.nodes) : e.Printed := by
  induction hb with
  | identifier name =>
      have hname : IsName name := h.identifiers name (mem_nodes _)
      exact ⟨_, .identifier name, hname.prints⟩
  | string value =>
      have hspelling := (Token.Spelling.string (h.strings value (mem_nodes _))).of_toList
      refine ⟨_, .string value, ?_⟩
      simpa [render] using hspelling.prints
  | long value =>
      obtain ⟨hdigits, hread⟩ := long?_renderInt (h.writable.longs value (mem_nodes _))
      refine ⟨_, .long hread, ?_⟩
      rw [render]
      exact (Token.Spelling.long hdigits).of_toList.prints
  | double value =>
      obtain ⟨whole, hwhole, part, hpart, htext, hread⟩ := h.doubles value (mem_nodes _)
      have hdecimal : value.render.toList ∈ Lexeme.Kind.double.pattern :=
        Lexeme.mem_double.mpr ⟨whole, part, [], by rw [htext, List.append_nil], hwhole, hpart,
          Or.inl rfl⟩
      refine ⟨_, .double hread, ?_⟩
      rw [render]
      exact (Token.Spelling.double hdecimal).of_toList.prints
  | @binary left right op _ _ _ _ _ _ ihl ihr =>
      obtain ⟨ls, hls, hprints⟩ := ihl (h.mono (nodes_left left op right))
      obtain ⟨rs, hrs, hprints'⟩ := ihr (h.mono (nodes_right left op right))
      have hop := prints_ofInfix (h.writable.known left op right (mem_nodes _))
      refine ⟨_, .binary op hls hrs, ?_⟩
      simpa [render] using hprints.blank (hop.blank hprints')
  | @renamed expr name _ _ ih =>
      obtain ⟨ts, hts, hprints⟩ := ih (h.mono (nodes_renamed expr name))
      have hname : IsName name := h.renamings expr name (mem_nodes _)
      have hword : Prints "AS".toList [Token.asWord] := prints_keyword (by decide)
      refine ⟨_, .renamed name hts, ?_⟩
      simpa [render] using hprints.blank (hword.blank hname.prints)
  | @select projection condition table hne _ _ ihitems ihcondition =>
      have hname : IsName table := h.tables projection condition table (mem_nodes _)
      have hprojection : ∀ item ∈ projection, item.Printed := by
        intro item hitem
        refine ihitems item hitem (h.mono ?_)
        intro n hn
        exact nodesOf_select projection condition table (nodes_of_mem hitem hn)
      obtain ⟨ts, hts, hprints⟩ := printed_items hne hprojection
      have hselect : Prints "SELECT".toList [⟨.keyword, "SELECT"⟩] := prints_keyword (by decide)
      have hfrom : Prints "FROM".toList [⟨.keyword, "FROM"⟩] := prints_keyword (by decide)
      have hwhere : Prints "WHERE".toList [⟨.keyword, "WHERE"⟩] := prints_keyword (by decide)
      cases condition with
      | none =>
          refine ⟨_, .select table hts, ?_⟩
          simpa [render] using hselect.blank (hprints.blank (hfrom.blank hname.prints))
      | some c =>
          obtain ⟨cs, hcs, hprints'⟩ := ihcondition c rfl
            (h.mono (nodes_condition projection c table))
          refine ⟨_, .selectWhere table hts hcs, ?_⟩
          simpa [render] using hselect.blank (hprints.blank (hfrom.blank
            (hname.prints.blank (hwhere.blank hprints'))))

/-- **What is read is read again from what it is printed as**, without parentheses, as long as its
literals are printed as they can be read: no string has a quote or a backslash in it, and every
number with a fraction is printed as digits and a point. -/
theorem ofText_render (h : ofText sql = .ok e)
    (hstrings : ∀ value, string value ∈ e.nodes → '\'' ∉ value.toList ∧ '\\' ∉ value.toList)
    (hdoubles : ∀ value, double value ∈ e.nodes → value.Positional) :
    ofText e.render = .ok e := by
  obtain ⟨ts, hts, h⟩ := exists_tokens_of_ofText h
  obtain ⟨front, hsplit, hb, hflat, hlegal⟩ := flattens_of_ofTokens h (Token.lexical_of_ofText hts)
  have hwritten : ∀ t ∈ front, t.Written := by
    intro t ht
    refine Token.written_of_ofText hts t ?_
    rcases hsplit with rfl | rfl
    · exact ht
    · exact List.mem_append_left _ ht
  have hprintable := printable_of_flattens hb hflat hlegal hwritten hstrings hdoubles
  obtain ⟨us, hus, hprints⟩ := printed_of_bracketed hb hprintable
  have hread : Parser.parse 0 (us ++ []) = ⟨.ok (some e), []⟩ :=
    (Parser.completeBelow (us.length + 1)).parse_zero (Nat.lt_succ_self _) hus
      ⟨hb, hprintable.writable⟩ rfl rfl
  rw [List.append_nil] at hread
  rw [ofText_of_tokens hprints.ofText, ofTokens, hread]
  rfl

/-- `SELECT a + b * 2.5 AS x, SELECT 7 FROM u FROM t WHERE c = 'Ω"' OR d`. -/
def printedQuery : Ast :=
  .select
    [.renamed (.binary (.identifier "a") "+"
        (.binary (.identifier "b") "*" (.double ⟨0x4004000000000000⟩))) "x",
      .select [.long 7] none "u"]
    (some (.binary (.binary (.identifier "c") "=" (.string "Ω\"")) "OR" (.identifier "d"))) "t"

/-- A statement with leading zeros, comments and a backslash, and what is printed for it. -/
theorem ofText_render_nested :
    ofText "select a+b*02.50 as x, select 007 from u from t where c='Ω\\\"'or d --;\n;" =
        .ok printedQuery ∧
      printedQuery.render =
        "SELECT a + b * 2.5 AS x, SELECT 7 FROM u FROM t WHERE c = 'Ω\"' OR d" ∧
      ofText printedQuery.render = .ok printedQuery := by
  have hread : ofText
      "select a+b*02.50 as x, select 007 from u from t where c='Ω\\\"'or d --;\n;" =
        .ok printedQuery := by
    decide +kernel
  refine ⟨hread, by decide +kernel, ofText_render hread ?_ ?_⟩
  · intro value h
    simp only [printedQuery, nodes, nodesOf, List.cons_append, List.nil_append, List.append_nil,
      List.mem_cons, reduceCtorEq, Ast.string.injEq, List.not_mem_nil, or_self, or_false,
      false_or] at h
    subst h
    decide
  · intro value h
    simp only [printedQuery, nodes, nodesOf, List.cons_append, List.nil_append, List.append_nil,
      List.mem_cons, reduceCtorEq, Ast.double.injEq, List.not_mem_nil, or_self, or_false,
      false_or] at h
    subst h
    refine ⟨['2'], ?_, ['5'], ?_, by decide +kernel⟩
    · exact Lexeme.mem_long.mpr ⟨by simp, List.forall_mem_singleton.mpr (by decide)⟩
    · exact Lexeme.mem_long.mpr ⟨by simp, List.forall_mem_singleton.mpr (by decide)⟩

end Ast

end SelectPlanner
