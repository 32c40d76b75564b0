/-
Reading makes progress, and so its loops end.

What reading leaves is an end of what there was, after a failure as after a success, so no token is
invented, put back or moved.  A success takes tokens: an expression at least one, and what extends
an expression at least two.  Reading nothing at all is what happens at the end of the input and
nowhere else.

The parser has two loops, one over what extends an expression and one over the items of a SELECT
list.  Neither counts anything.  Here each is given by its turns, and run for no more turns than
there are tokens: it is over by then, with the outcome that the parser has.  The number of tokens is
the measure, which each turn lowers.
-/
import Mathlib
import SelectPlanner.Proofs.Consumption

namespace SelectPlanner

/-! ### Loops by their turns -/

/-- What becomes of a loop at a state. -/
inductive Turn (σ ω : Type) where
  /-- Its condition does not hold: it is over, and no turn is taken. -/
  | stop (value : ω)
  /-- A turn is taken that leaves the loop. -/
  | leave (value : ω)
  /-- A turn is taken that comes round to another state. -/
  | again (next : σ)

namespace Turn

variable {σ ω : Type}

/-- What a loop comes to if it is over after at most `n` turns. -/
def run (turn : σ → Turn σ ω) (n : Nat) (s : σ) : Option ω :=
  match turn s, n with
  | stop value, _ => some value
  | leave value, _ + 1 => some value
  | again next, n + 1 => run turn n next
  | leave _, 0 | again _, 0 => none

/-- The loop comes to what `value` says of its states, and a turn makes a state smaller. -/
def Lowers (size : σ → Nat) (value : σ → ω) (s : σ) : Turn σ ω → Prop
  | stop v => value s = v
  | leave v => value s = v ∧ 0 < size s
  | again next => value s = value next ∧ size next < size s

/-- As many turns as the size of the state are enough. -/
theorem run_of_lowers {turn : σ → Turn σ ω} {size : σ → Nat} {value : σ → ω}
    (h : ∀ s, Lowers size value s (turn s)) {n : Nat} {s : σ} (hn : size s ≤ n) :
    run turn n s = some (value s) := by
  have hs := h s
  fun_induction run turn n s with
  | case1 n s v hturn =>
      rw [hturn] at hs
      exact congrArg some hs.symm
  | case2 s v n hturn =>
      rw [hturn] at hs
      exact congrArg some hs.1.symm
  | case3 s next n hturn ih =>
      rw [hturn] at hs
      have hless := hs.2
      rw [hs.1]
      exact ih (by omega) (h next)
  | case4 s v hturn =>
      rw [hturn] at hs
      have hpos := hs.2
      omega
  | case5 s next hturn =>
      rw [hturn] at hs
      have hless := hs.2
      omega

end Turn

namespace Parser

open Token (nextPrecedence)

variable {p : Nat} {ts rest : List Token} {e left longer : Ast}

/-! ### Tokens taken by a success -/

theorem length_of_parse (h : parse p ts = ⟨.ok (some e), rest⟩) : rest.length < ts.length := by
  cases ts with
  | nil => cases h
  | cons t ts =>
      obtain ⟨e', hread, -⟩ := Outcome.map_eq_ok.mp h
      exact Nat.lt_succ_of_le (length_of_outcome hread)

theorem length_of_parseOperand (h : parseOperand ts = ⟨.ok (some e), rest⟩) :
    rest.length < ts.length := by
  cases ts with
  | nil => cases h
  | cons t ts =>
      obtain ⟨e', hread, -⟩ := Outcome.map_eq_ok.mp h
      exact Nat.lt_succ_of_le (length_of_outcome hread)

/-- An extension takes its own token and what belongs to its right. -/
theorem length_of_extended (h : parseExtension left p ts = ⟨.ok longer, rest⟩) :
    rest.length + 2 ≤ ts.length := by
  cases ts with
  | nil => exact absurd h fail_ne_ok
  | cons t ts =>
      rcases parseExtension_eq_ok h with ⟨-, right, hright, -⟩ | ⟨-, name, rfl, -⟩
      · have hless := length_of_parse hright
        rw [List.length_cons]
        omega
      · simp

/-! ### Nothing is read at the end alone -/

theorem result_map_some {o : Outcome Ast} : (o.map some).result ≠ .ok none := by
  obtain ⟨result, rest⟩ := o
  cases result with
  | error err => exact nofun
  | ok e => exact nofun

theorem result_parse_eq_none : (parse p ts).result = .ok none ↔ ts = [] := by
  cases ts with
  | nil => exact ⟨fun _ => rfl, fun _ => rfl⟩
  | cons t ts => exact ⟨fun h => absurd h result_map_some, nofun⟩

theorem result_parseOperand_eq_none : (parseOperand ts).result = .ok none ↔ ts = [] := by
  cases ts with
  | nil => exact ⟨fun _ => rfl, fun _ => rfl⟩
  | cons t ts => exact ⟨fun h => absurd h result_map_some, nofun⟩

/-! ### The loop over extensions -/

/-- One turn of the loop, at the expression that was read so far and the tokens behind it. -/
def extensionTurn (p : Nat) : Ast × List Token → Turn (Ast × List Token) (Outcome Ast)
  | (e, ts) =>
    if p < nextPrecedence ts then
      match parseExtension e (nextPrecedence ts) ts with
      | ⟨.ok longer, rest⟩ => .again (longer, rest)
      | ⟨.error err, rest⟩ => .leave ⟨.error err, rest⟩
    else .stop ⟨.ok e, ts⟩

/-- What the loop comes to if it is over after at most `n` turns. -/
def extensionsWithin (n p : Nat) (left : Ast) (ts : List Token) : Option (Outcome Ast) :=
  Turn.run (extensionTurn p) n (left, ts)

theorem extensionTurn_lowers (p : Nat) (s : Ast × List Token) :
    Turn.Lowers (fun s => s.2.length) (fun s => parseExtensions s.1 p s.2) s
      (extensionTurn p s) := by
  obtain ⟨e, ts⟩ := s
  unfold extensionTurn
  by_cases hp : p < nextPrecedence ts
  · -- At the end of the input nothing binds, so the condition fails there.
    have hpos : 0 < ts.length := by
      cases ts with
      | nil => exact absurd hp (Nat.not_lt_zero p)
      | cons t ts => exact Nat.zero_lt_succ _
    rcases hturn : parseExtension e (nextPrecedence ts) ts with ⟨err | longer, rest⟩
    · simp only [if_pos hp, hturn]
      refine ⟨?_, hpos⟩
      show parseExtensions e p ts = _
      rw [parseExtensions_eq, if_pos hp, hturn, andThen_error]
    · simp only [if_pos hp, hturn]
      refine ⟨?_, length_of_parseExtension hturn⟩
      show parseExtensions e p ts = _
      rw [parseExtensions_eq, if_pos hp, hturn, andThen_ok]
  · simp only [if_neg hp]
    show parseExtensions e p ts = _
    rw [parseExtensions_eq, if_neg hp]

/-! ### The loop over items -/

/-- What a SELECT list is, once it is known whether there is an item. -/
def itemsOn : Option Ast → List Token → Outcome (List Ast)
  | none, rest => ⟨.ok [], rest⟩
  | some item, rest =>
    match Token.afterPunctuation? "," rest with
    | none => ⟨.ok [item], rest⟩
    | some more => (parseItems more).map (item :: ·)

theorem parseItems_eq_itemsOn (ts : List Token) :
    parseItems ts = (parse 0 ts).andThen itemsOn := by
  rw [parseItems_eq]
  congr 1
  funext found rest
  cases found <;> rfl

/-- The items that were listed so far, the next one if there is one, and the tokens behind it. -/
abbrev Listing := List Ast × Option Ast × List Token

/-- One turn of the loop: the item is listed, and behind a comma the next one is read. -/
def itemTurn : Listing → Turn Listing (Outcome (List Ast))
  | (items, none, ts) => .stop ⟨.ok items, ts⟩
  | (items, some item, ts) =>
    match Token.afterPunctuation? "," ts with
    | none => .leave ⟨.ok (items ++ [item]), ts⟩
    | some more =>
      match parse 0 more with
      | ⟨.ok found, rest⟩ => .again (items ++ [item], found, rest)
      | ⟨.error err, rest⟩ => .leave ⟨.error err, rest⟩

/-- What a SELECT list comes to if the loop over its items is over after at most `n` turns. -/
def itemsWithin (n : Nat) (ts : List Token) : Option (Outcome (List Ast)) :=
  match parse 0 ts with
  | ⟨.ok found, rest⟩ => Turn.run itemTurn n ([], found, rest)
  | ⟨.error err, rest⟩ => some ⟨.error err, rest⟩

/-- An item that is still to be listed counts as a token. -/
def Listing.size : Listing → Nat
  | (_, none, _) => 0
  | (_, some _, ts) => ts.length + 1

/-- What is listed so far, and what the tokens add to it. -/
def Listing.value (s : Listing) : Outcome (List Ast) := (itemsOn s.2.1 s.2.2).map (s.1 ++ ·)

/-- Reading pays for the item that it finds. -/
theorem size_of_parse (items : List Ast) {found : Option Ast}
    (h : parse 0 ts = ⟨.ok found, rest⟩) : Listing.size (items, found, rest) ≤ ts.length := by
  cases found with
  | none => exact Nat.zero_le _
  | some item => exact length_of_parse h

/-- Behind a comma the item has joined those that were listed so far. -/
theorem Listing.value_comma (items : List Ast) (item : Ast) {more : List Token}
    (hcomma : Token.afterPunctuation? "," ts = some more) :
    Listing.value (items, some item, ts) =
      ((parse 0 more).andThen itemsOn).map (items ++ [item] ++ ·) := by
  rw [Listing.value, ← parseItems_eq_itemsOn]
  simp only [itemsOn, hcomma]
  rcases parseItems more with ⟨err | others, rest⟩
  · simp only [map_error]
  · simp only [map_ok, List.append_assoc, List.singleton_append]

theorem itemTurn_lowers (s : Listing) :
    Turn.Lowers Listing.size Listing.value s (itemTurn s) := by
  obtain ⟨items, _ | item, ts⟩ := s
  · show (⟨.ok (items ++ []), ts⟩ : Outcome (List Ast)) = _
    rw [List.append_nil]
  have hpos : 0 < Listing.size (items, some item, ts) := Nat.zero_lt_succ _
  cases hcomma : Token.afterPunctuation? "," ts with
  | none =>
      simp only [itemTurn, hcomma]
      refine ⟨?_, hpos⟩
      simp only [Listing.value, itemsOn, hcomma, map_ok]
  | some more =>
      have hvalue := Listing.value_comma items item hcomma
      have hless := Token.length_of_afterPunctuation? hcomma
      rcases hnext : parse 0 more with ⟨err | found, rest⟩
      · simp only [itemTurn, hcomma, hnext]
        refine ⟨?_, hpos⟩
        rw [hvalue, hnext, andThen_error, map_error]
      · simp only [itemTurn, hcomma, hnext]
        refine ⟨?_, ?_⟩
        · rw [hvalue, hnext, andThen_ok, Listing.value]
        · -- The comma is gone, and the item that was listed no longer counts.
          have hsize := size_of_parse (items ++ [item]) hnext
          show _ < ts.length + 1
          omega

theorem itemsWithin_length (ts : List Token) : itemsWithin ts.length ts = some (parseItems ts) := by
  rw [itemsWithin, parseItems_eq_itemsOn]
  rcases hnext : parse 0 ts with ⟨err | found, rest⟩
  · rw [andThen_error]
  · rw [andThen_ok]
    refine (Turn.run_of_lowers itemTurn_lowers (size_of_parse [] hnext)).trans ?_
    rw [Listing.value]
    rcases itemsOn found rest with ⟨err | items, rest'⟩ <;> rfl

/-- **Reading makes progress.**  What is left is always an end of what there was, nothing is read
where nothing is left and nowhere else, an expression takes a token and an extension two.  So each
of the two loops is over after at most as many turns as there are tokens. -/
theorem parse_advances (p : Nat) (left : Ast) (ts : List Token) :
    ((parse p ts).rest <:+ ts ∧ (parseOperand ts).rest <:+ ts ∧
      (parseExtension left p ts).rest <:+ ts) ∧
    ((parse p ts).result = .ok none ↔ ts = []) ∧ ((parseOperand ts).result = .ok none ↔ ts = []) ∧
    (∀ e rest, parse p ts = ⟨.ok (some e), rest⟩ → rest.length + 1 ≤ ts.length) ∧
    (∀ e rest, parseOperand ts = ⟨.ok (some e), rest⟩ → rest.length + 1 ≤ ts.length) ∧
    (∀ longer rest, parseExtension left p ts = ⟨.ok longer, rest⟩ →
      rest.length + 2 ≤ ts.length) ∧
    extensionsWithin ts.length p left ts = some (parseExtensions left p ts) ∧
    itemsWithin ts.length ts = some (parseItems ts) := by
  have below := takesBelow (ts.length + 1)
  refine ⟨⟨(takes_parse p ts).suffix, (takes_operand below (Nat.le_succ _)).suffix,
    (takes_extension below (Nat.le_succ _) left p).suffix⟩, result_parse_eq_none,
    result_parseOperand_eq_none, fun _ _ => length_of_parse, fun _ _ => length_of_parseOperand,
    fun _ _ => length_of_extended, ?_, itemsWithin_length ts⟩
  exact Turn.run_of_lowers (extensionTurn_lowers p) (Nat.le_refl ts.length)

end Parser

end SelectPlanner
