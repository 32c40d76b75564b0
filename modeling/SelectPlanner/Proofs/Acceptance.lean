/-
Which texts are statements, and what the error is about where one is not.

A text is accepted when its tokens are a statement of the grammar, and not otherwise.  This closes a
circle: the machine accepts every statement of the grammar, the parser accepts all that the machine
accepts, and what the parser reads is written with a statement of the grammar.  So although the
grammar leaves open where a condition or an operator belongs, and the parser settles it at once,
no statement is lost.

An error is about the first token with which no statement starts any more, or about the end where
every token before it could have been part of one.
-/
import Mathlib
import SelectPlanner.Proofs.ParserSoundness
import SelectPlanner.Proofs.Spacing
import SelectPlanner.Proofs.SyntaxErrors

namespace SelectPlanner

open Machine Machine.State

/-! ### Statements -/

namespace Ast

variable {ts : List Token} {e : Ast} {sql : String}

theorem ofText_of_tokens (h : Token.ofText sql = .ok ts) : ofText sql = ofTokens ts := by
  rw [ofText, h]

/-- What is read from a text is read from its tokens. -/
theorem exists_tokens_of_ofText (h : ofText sql = .ok e) :
    ∃ ts, Token.ofText sql = .ok ts ∧ ofTokens ts = .ok e := by
  cases hts : Token.ofText sql with
  | ok ts =>
      rw [ofText_of_tokens hts] at h
      exact ⟨ts, rfl, h⟩
  | error err =>
      rw [ofText, hts] at h
      cases h

/-- A statement is an expression that nothing follows but a semicolon. -/
theorem ofTokens_eq_ok (h : ofTokens ts = .ok e) :
    ∃ rest, Parser.parse 0 ts = ⟨.ok (some e), rest⟩ ∧
      (rest = [] ∨ rest = [⟨.punctuation, ";"⟩]) := by
  unfold ofTokens at h
  rcases hparse : Parser.parse 0 ts with ⟨_ | _ | found, rest⟩
  · rw [hparse] at h
    cases h
  · rw [hparse] at h
    cases h
  · rw [hparse] at h
    cases hclose : Token.afterPunctuation? ";" rest with
    | none =>
        cases rest with
        | nil =>
            cases h
            exact ⟨[], rfl, Or.inl rfl⟩
        | cons t rest =>
            simp only [hclose, Option.getD_none] at h
            cases h
    | some after =>
        obtain rfl := Token.eq_of_afterPunctuation? hclose
        cases after with
        | nil =>
            cases h
            exact ⟨_, rfl, Or.inr rfl⟩
        | cons t after => cases h

/-- What is read as a statement is written with the tokens in front of its semicolon. -/
theorem flattens_of_ofTokens (h : ofTokens ts = .ok e) (hts : ∀ t ∈ ts, t.Lexical) :
    ∃ front, (ts = front ∨ ts = front ++ [⟨.punctuation, ";"⟩]) ∧ e.Bracketed ∧
      e.Flattens front ∧ ∀ t ∈ front, Grammar.Legal t := by
  obtain ⟨s, hrun, -⟩ := exists_ofTokens_iff.mp ⟨e, h⟩
  obtain ⟨rest, hparse, hrest⟩ := ofTokens_eq_ok h
  have hsound := Parser.soundBelow (ts.length + 1) ts (Nat.lt_succ_self _)
    (fun t ht => (hts t ht).spelt) 0 e rest hparse
  obtain ⟨front, rfl, hflat⟩ := hsound.consumed
  refine ⟨front, ?_, hsound.bracketed, hflat, ?_⟩
  · rcases hrest with rfl | rfl
    · exact Or.inl (List.append_nil front)
    · exact Or.inr rfl
  · intro t ht
    exact ⟨hts t (List.mem_append_left _ ht), pos_of_run hrun t (List.mem_append_left _ ht)⟩

/-- What is read as a statement is one. -/
theorem statement_of_ofTokens (h : ofTokens ts = .ok e) (hts : ∀ t ∈ ts, t.Lexical) :
    Grammar.Statement ts := by
  obtain ⟨front, hsplit, -, hflat, hlegal⟩ := flattens_of_ofTokens h hts
  have hfront : Grammar.Derives .expression front := Grammar.derives_of_flattens hflat hlegal
  rcases hsplit with rfl | rfl
  · exact .bare hfront
  · exact .closed hfront

/-- **A text is accepted exactly when its tokens are a statement of the grammar.**  None is that has
a percent sign, a parenthesis or two semicolons among them, or a SELECT list that is empty or ends
in a comma. -/
theorem ofText_accepts_grammar (h : Token.ofText sql = .ok ts) :
    ((∃ e, ofText sql = .ok e) ↔ Grammar.Statement ts) ∧
      (Grammar.Malformed ts → ∃ err, ofText sql = .error err) := by
  have hts := Token.lexical_of_ofText h
  rw [ofText_of_tokens h]
  refine ⟨⟨?_, ?_⟩, ?_⟩
  · rintro ⟨e, he⟩
    exact statement_of_ofTokens he hts
  · intro hstatement
    exact exists_ofTokens_iff.mpr (accepts_of_statement hstatement hts)
  · intro hmalformed
    cases hresult : ofTokens ts with
    | error err => exact ⟨err, rfl⟩
    | ok e =>
        obtain ⟨s, hrun, hs⟩ := exists_ofTokens_iff.mp ⟨e, hresult⟩
        exact absurd hs (not_accepting_of_malformed hmalformed hrun)

/-- The tokens of `select a, select 7 from u where b from t;`. -/
def listedQuery : List Token :=
  [⟨.keyword, "SELECT"⟩, ⟨.identifier, "a"⟩, ⟨.punctuation, ","⟩, ⟨.keyword, "SELECT"⟩,
    ⟨.long, "7"⟩, ⟨.keyword, "FROM"⟩, ⟨.identifier, "u"⟩, ⟨.keyword, "WHERE"⟩, ⟨.identifier, "b"⟩,
    ⟨.keyword, "FROM"⟩, ⟨.identifier, "t"⟩, ⟨.punctuation, ";"⟩]

/-- The tokens of `select a, from t`. -/
def openList : List Token :=
  [⟨.keyword, "SELECT"⟩, ⟨.identifier, "a"⟩, ⟨.punctuation, ","⟩, ⟨.keyword, "FROM"⟩,
    ⟨.identifier, "t"⟩]

theorem statement_listedQuery : Grammar.Statement listedQuery := by
  have name (n : String) : Grammar.Derives .expression [⟨.identifier, n⟩] :=
    .single (.leaf (.identifier n))
  have hseven : Grammar.Derives .items [⟨.long, "7"⟩] :=
    .last (.single (.leaf (.long (n := 7) (by decide +kernel) (by decide))))
  have hinner : Grammar.Derives .items
      [⟨.keyword, "SELECT"⟩, ⟨.long, "7"⟩, ⟨.keyword, "FROM"⟩, ⟨.identifier, "u"⟩,
        ⟨.keyword, "WHERE"⟩, ⟨.identifier, "b"⟩] :=
    .last (.single (.selectWhere "u" hseven (name "b")))
  exact .closed (.single (.select "t" (.more (name "a") hinner)))

/-- A SELECT with a condition may be an item, and then there is a FROM behind its condition. -/
theorem ofText_accepts_grammar_listed :
    Token.ofText "select a, select 7 from u where b from t;" = .ok listedQuery ∧
      (∃ e, ofText "select a, select 7 from u where b from t;" = .ok e) ∧
      Token.ofText "select a, from t" = .ok openList ∧
      ∃ err, ofText "select a, from t" = .error err := by
  have hlisted : Token.ofText "select a, select 7 from u where b from t;" = .ok listedQuery := by
    cbv
  have hopen : Token.ofText "select a, from t" = .ok openList := by cbv
  have hmalformed : Grammar.Malformed openList :=
    .trailingComma [⟨.keyword, "SELECT"⟩, ⟨.identifier, "a"⟩] (Or.inr ⟨_, Or.inl rfl⟩)
  exact ⟨hlisted, (ofText_accepts_grammar hlisted).1.mpr statement_listedQuery, hopen,
    (ofText_accepts_grammar hopen).2 hmalformed⟩

/-! ### Errors -/

theorem written_closing (s : State) : ∀ t ∈ s.closing, t.Written := by
  have word (text : List Char) (h : text ∈ Lexeme.Kind.word.pattern) :
      (Token.ofWord text).Written := ⟨⟨.word, text⟩, h, Lexeme.stands_ofWord text⟩
  have hname : (⟨.identifier, "t"⟩ : Token).Written :=
    word ['t'] (Lexeme.mem_word.mpr ⟨'t', [], rfl, by decide, nofun⟩)
  have hfrom : (⟨.keyword, "FROM"⟩ : Token).Written := by
    refine word ['F', 'R', 'O', 'M'] (Lexeme.mem_word.mpr ⟨'F', _, rfl, by decide, ?_⟩)
    simp only [List.forall_mem_cons]
    exact ⟨by decide, by decide, by decide, nofun⟩
  have hsources (d : Nat) : ∀ t ∈ sources d, t.Written := by
    induction d with
    | zero => exact nofun
    | succ d ih => exact List.forall_mem_cons.mpr ⟨hfrom, List.forall_mem_cons.mpr ⟨hname, ih⟩⟩
  cases s with
  | operand d | name d | table d => exact List.forall_mem_cons.mpr ⟨hname, hsources d⟩
  | value d | source d => exact hsources d
  | closed => exact nofun

/-- **An error is about the first token that cannot stand where it does.**  Some text that is
accepted starts with the tokens before it, and none with those and the token itself; or else the
error is about the end of the text, and some text goes on from there. -/
theorem ofText_blames_token {err : Error} (hts : Token.ofText sql = .ok ts)
    (h : ofText sql = .error err) :
    ∃ pre post, ts = pre ++ post ∧
      (∃ sql' more e, Token.ofText sql' = .ok (pre ++ more) ∧ ofText sql' = .ok e) ∧
      (post = [] ∧ err.ReportsEnd ∨
        ∃ t rest, post = t :: rest ∧ err.Names t ∧
          ∀ more e, ofTokens (pre ++ t :: more) ≠ .ok e) := by
  rw [ofText_of_tokens hts] at h
  obtain ⟨pre, post, s, rfl, hrun, hpost⟩ := (blames_of_ofTokens h).exists_split
  refine ⟨pre, post, rfl, ?_, ?_⟩
  · obtain ⟨s', hclosing, hs'⟩ := accepting_closing s
    have hwritten : ∀ t ∈ pre ++ s.closing, t.Written :=
      List.forall_mem_append.mpr
        ⟨(List.forall_mem_append.mp (Token.written_of_ofText hts)).1, written_closing s⟩
    obtain ⟨sql', hsql'⟩ := Token.exists_text hwritten
    obtain ⟨e, he⟩ := exists_ofTokens_iff.mpr ⟨s', by rw [run_append hrun, hclosing], hs'⟩
    exact ⟨sql', s.closing, e, hsql', by rw [ofText_of_tokens hsql', he]⟩
  · rcases hpost with ⟨rfl, -, hend⟩ | ⟨t, rest, rfl, hstuck, hnames⟩
    · exact Or.inl ⟨rfl, hend⟩
    · refine Or.inr ⟨t, rest, rfl, hnames, ?_⟩
      intro more e he
      obtain ⟨s', hrun', -⟩ := exists_ofTokens_iff.mp ⟨e, he⟩
      obtain ⟨mid, next, hmid, hstep, -⟩ := exists_step_of_run hrun'
      obtain rfl := Option.some.inj (hrun.symm.trans hmid)
      rw [hstuck] at hstep
      cases hstep

/-- The FROM behind a comma is to blame, and none of the tokens before. -/
theorem ofText_blames_token_from :
    Token.ofText "select a, from t" = .ok openList ∧
      ofText "select a, from t" =
        .error (.unexpectedToken "keyword 'FROM'" "at start of expression") ∧
      ∃ pre rest, openList = pre ++ ⟨.keyword, "FROM"⟩ :: rest ∧
        (∃ sql' more e, Token.ofText sql' = .ok (pre ++ more) ∧ ofText sql' = .ok e) ∧
        ∀ more e, ofTokens (pre ++ ⟨.keyword, "FROM"⟩ :: more) ≠ .ok e := by
  have htokens : Token.ofText "select a, from t" = .ok openList := by cbv
  have herror : ofText "select a, from t" =
      .error (.unexpectedToken "keyword 'FROM'" "at start of expression") := by cbv
  obtain ⟨pre, post, hsplit, hmore, hpost⟩ := ofText_blames_token htokens herror
  rcases hpost with ⟨-, hend⟩ | ⟨t, rest, rfl, hnames, hnever⟩
  · exact hend.elim
  · have hfrom : ∀ t ∈ openList, "keyword 'FROM'" = t.render → t = ⟨.keyword, "FROM"⟩ := by decide
    obtain rfl := hfrom t (by rw [hsplit]; simp) hnames
    exact ⟨htokens, herror, pre, rest, hsplit, hmore, hnever⟩

end Ast

end SelectPlanner
