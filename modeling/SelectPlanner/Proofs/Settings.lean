/-
Settings are checked one by one, and the last value of a key stays.

A setting changes one place of the configuration: the batch size, if it stands under the key of
the batch size, and otherwise the place of its own key.  So what is in a place afterwards was put
there by the last setting of its key, and it makes no difference how settings of different keys are
mixed.  The values under the key of the batch size are checked on the way, and the first that is no
batch size ends it, whatever follows.

The values of each key say everything about the outcome, so settings that agree in these have the
same one.  A batch size as a text is described without trimming or reading it: blanks, possibly a
plus, digits, blanks, and the number that the digits denote.
-/
import Mathlib
import SelectPlanner.Proofs.Configurations
import SelectPlanner.Proofs.LexicalTokens

namespace SelectPlanner

/-! ### Trimming -/

namespace Text

variable {cs lead body trail : List Char}

/-- Only blanks are trimmed off. -/
theorem exists_trim (cs : List Char) :
    ∃ lead trail, cs = lead ++ trim cs ++ trail ∧ (∀ c ∈ lead, isBlank c) ∧
      ∀ c ∈ trail, isBlank c := by
  refine ⟨cs.takeWhile isBlank, ((cs.dropWhile isBlank).reverse.takeWhile isBlank).reverse, ?_,
    fun c hc => List.mem_takeWhile_imp hc, fun c hc => ?_⟩
  · rw [trim, List.append_assoc, ← List.reverse_append, List.takeWhile_append_dropWhile,
      List.reverse_reverse, List.takeWhile_append_dropWhile]
  · exact List.mem_takeWhile_imp (List.mem_reverse.mp hc)

/-- What has no blank at its ends is left when the blanks around it are trimmed off. -/
theorem trim_between (hlead : ∀ c ∈ lead, isBlank c) (htrail : ∀ c ∈ trail, isBlank c)
    (hne : body ≠ []) (hbody : ∀ c ∈ body, ¬ isBlank c) : trim (lead ++ body ++ trail) = body := by
  have hfront : ∀ back, (body ++ back).dropWhile isBlank = body ++ back := by
    intro back
    obtain ⟨c, rest, rfl⟩ := List.exists_cons_of_ne_nil hne
    exact List.dropWhile_cons_of_neg (hbody c List.mem_cons_self)
  have hback : body.reverse.dropWhile isBlank = body.reverse := by
    obtain ⟨c, rest, hc⟩ := List.exists_cons_of_ne_nil (mt List.reverse_eq_nil_iff.mp hne)
    rw [hc, List.dropWhile_cons_of_neg]
    exact hbody c (List.mem_reverse.mp (hc ▸ List.mem_cons_self))
  rw [trim, List.append_assoc, List.dropWhile_append_of_pos hlead, hfront, List.reverse_append,
    List.dropWhile_append_of_pos fun c hc => htrail c (List.mem_reverse.mp hc), hback,
    List.reverse_reverse]

end Text

/-! ### Sizes -/

namespace Numeral

variable {cs : List Char}

theorem natural?_eq_some {n : Nat} : natural? cs = some n ↔
    cs ≠ [] ∧ (∀ c ∈ cs, Lexeme.Digit c) ∧ Nat.ofDigitChars 10 cs 0 = n := by
  simp only [natural?, Option.ite_none_right_eq_some, List.all_eq_true, Lexeme.isDigit_iff,
    and_assoc, Option.some.injEq]

/-- A size is a numeral that 64 bits hold, possibly with a plus in front. -/
theorem size?_eq_some {size : UInt64} : size? cs = some size ↔
    ∃ sign digits, cs = sign ++ digits ∧ (sign = [] ∨ sign = ['+']) ∧
      natural? digits = some size.toNat := by
  have hread : ∀ digits, (natural? digits).bind
        (fun n => if n < 0x10000000000000000 then some (UInt64.ofNat n) else none) = some size ↔
      natural? digits = some size.toNat := by
    intro digits
    rw [Option.bind_eq_some_iff]
    constructor
    · rintro ⟨n, hn, hsize⟩
      obtain ⟨hlt, hsize⟩ := Option.ite_none_right_eq_some.mp hsize
      rw [hn, ← Option.some.inj hsize, UInt64.toNat_ofNat_of_lt' hlt]
    · intro hn
      exact ⟨_, hn, by rw [if_pos size.toNat_lt, UInt64.ofNat_toNat]⟩
  -- A plus is no digit, so without a sign in front the text does not start with one.
  have hplus : ∀ digits n, natural? ('+' :: digits) ≠ some n := by
    intro digits n hn
    exact absurd ((natural?_eq_some.mp hn).2.1 '+' List.mem_cons_self) (by decide)
  unfold size?
  split
  next digits =>
    rw [hread]
    constructor
    · intro hn
      exact ⟨['+'], digits, rfl, Or.inr rfl, hn⟩
    · rintro ⟨sign, rest, hcs, rfl | rfl, hn⟩
      · obtain rfl : '+' :: digits = rest := hcs
        exact absurd hn (hplus _ _)
      · obtain rfl := (List.cons.inj hcs).2
        exact hn
  next hne =>
    rw [hread]
    constructor
    · intro hn
      exact ⟨[], cs, rfl, Or.inl rfl, hn⟩
    · rintro ⟨sign, rest, rfl, rfl | rfl, hn⟩
      · exact hn
      · exact absurd rfl (hne rest)

end Numeral

namespace Config

variable {text value key : String} {n : Nat} {c c' : Config}
  {settings other : List (String × String)} {values : List String}

/-- The text of a number: digits, possibly with a plus in front, and blanks around them. -/
inductive Denotes : String → Nat → Prop where
  | intro {text : String} {lead sign digits trail : List Char}
      (split : text.toList = lead ++ (sign ++ digits) ++ trail)
      (lead_blank : ∀ c ∈ lead, Text.isBlank c) (trail_blank : ∀ c ∈ trail, Text.isBlank c)
      (plus : sign = [] ∨ sign = ['+']) (nonempty : digits ≠ [])
      (decimal : ∀ c ∈ digits, Lexeme.Digit c) : Denotes text (Nat.ofDigitChars 10 digits 0)

/-- The text of a batch size: a number of 64 bits other than zero. -/
def Valid (text : String) : Prop := ∃ n, Denotes text n ∧ 1 ≤ n ∧ n ≤ 2 ^ 64 - 1

theorem size?_trim_iff {size : UInt64} :
    Numeral.size? (Text.trim text.toList) = some size ↔ Denotes text size.toNat := by
  rw [Numeral.size?_eq_some]
  constructor
  · rintro ⟨sign, digits, hbody, hsign, hdigits⟩
    obtain ⟨lead, trail, hsplit, hlead, htrail⟩ := Text.exists_trim text.toList
    obtain ⟨hne, hall, hvalue⟩ := Numeral.natural?_eq_some.mp hdigits
    rw [hbody] at hsplit
    exact hvalue ▸ .intro hsplit hlead htrail hsign hne hall
  · generalize hsize : size.toNat = n
    rintro ⟨hsplit, hlead, htrail, hsign, hne, hall⟩
    rename_i lead sign digits trail
    have hbody : ∀ c ∈ sign ++ digits, ¬ Text.isBlank c := by
      intro c hc
      rcases List.mem_append.mp hc with hc | hc
      · rcases hsign with rfl | rfl
        · cases hc
        · obtain rfl := List.mem_singleton.mp hc
          decide
      · exact Bool.eq_false_iff.mp (Text.isBlank_of_isDigit (Lexeme.isDigit_iff.mpr (hall c hc)))
    rw [hsplit, Text.trim_between hlead htrail (List.append_ne_nil_of_right_ne_nil _ hne) hbody]
    exact ⟨sign, digits, rfl, hsign, Numeral.natural?_eq_some.mpr ⟨hne, hall, rfl⟩⟩

theorem batchSizeOf?_eq_some {size : UInt64} :
    batchSizeOf? text = some size ↔ Denotes text size.toNat ∧ 1 ≤ size.toNat := by
  rw [batchSizeOf?, Option.filter_eq_some_iff, size?_trim_iff, decide_eq_true_eq,
    UInt64.lt_iff_toNat_lt]
  rfl

theorem valid_iff : Valid text ↔ ∃ size, batchSizeOf? text = some size := by
  simp only [batchSizeOf?_eq_some]
  constructor
  · rintro ⟨n, hdenotes, hpos, hle⟩
    have hlt : n < 0x10000000000000000 := by omega
    have hsize : (UInt64.ofNat n).toNat = n := UInt64.toNat_ofNat_of_lt' hlt
    exact ⟨UInt64.ofNat n, by rwa [hsize], by rwa [hsize]⟩
  · rintro ⟨size, hdenotes, hpos⟩
    have hlt := size.toNat_lt
    exact ⟨size.toNat, hdenotes, hpos, by omega⟩

theorem not_valid_iff : ¬ Valid text ↔ batchSizeOf? text = none := by
  rw [valid_iff, ← Option.ne_none_iff_exists', not_not]

/-! ### The first invalid batch size -/

/-- The first value under the key of the batch size that is no batch size. -/
inductive FirstInvalid : List (String × String) → String → Prop where
  | intro {front : List (String × String)} {value : String} (back : List (String × String))
      (front_valid : ∀ earlier, (batchSizeKey, earlier) ∈ front → Valid earlier)
      (invalid : ¬ Valid value) : FirstInvalid (front ++ (batchSizeKey, value) :: back) value

theorem FirstInvalid.append (h : FirstInvalid settings value) (more : List (String × String)) :
    FirstInvalid (settings ++ more) value := by
  obtain ⟨back, hfront, hinvalid⟩ := h
  rw [List.append_assoc, List.cons_append]
  exact .intro (back ++ more) hfront hinvalid

/-- What is found first among the values of the key of the batch size that is no batch size. -/
def invalid? (settings : List (String × String)) : Option String :=
  (valuesOf batchSizeKey settings).find? fun text => (batchSizeOf? text).isNone

theorem FirstInvalid.invalid?_eq (h : FirstInvalid settings value) :
    invalid? settings = some value := by
  obtain ⟨back, hfront, hinvalid⟩ := h
  rw [invalid?, valuesOf_append, valuesOf_cons_self]
  refine List.find?_eq_some_iff_append.mpr
    ⟨Option.isNone_iff_eq_none.mpr (not_valid_iff.mp hinvalid), _, _, rfl, ?_⟩
  intro earlier hearlier
  obtain ⟨size, hsize⟩ := valid_iff.mp (hfront earlier (mem_valuesOf.mp hearlier))
  rw [hsize]
  rfl

theorem invalid?_eq_none :
    invalid? settings = none ↔ ∀ value, (batchSizeKey, value) ∈ settings → Valid value := by
  simp [invalid?, mem_valuesOf, valid_iff, Option.ne_none_iff_exists']

/-! ### What settings leave -/

/-- A configuration has in each place what these settings put there last. -/
structure Holds (settings : List (String × String)) (c : Config) : Prop where
  /-- The batch size is that of the last text of one. -/
  size : ∀ value, (valuesOf batchSizeKey settings).getLast? = some value →
    Denotes value c.batchSize.toNat
  /-- It is the usual one if there is none. -/
  usual : valuesOf batchSizeKey settings = [] → c.batchSize = 1024
  /-- It is not zero. -/
  positive : c.batchSize ≠ 0
  /-- Every other key has its last value. -/
  setting : ∀ key, c.setting? key =
    if key = batchSizeKey then none else (valuesOf key settings).getLast?

theorem holds_nil : Holds [] {} where
  size := nofun
  usual _ := rfl
  positive := by decide
  setting key := by
    rw [setting?, valuesOf, List.filter_nil, List.map_nil, List.getLast?_nil, ite_self]
    exact Std.ExtTreeMap.getElem?_empty

theorem Holds.withBatchSize {size : UInt64} (h : Holds settings c)
    (hvalue : batchSizeOf? value = some size) :
    Holds (settings ++ [(batchSizeKey, value)]) (c.withBatchSize size) := by
  obtain ⟨hdenotes, hpos⟩ := batchSizeOf?_eq_some.mp hvalue
  refine ⟨fun last hlast => ?_, fun hnone => ?_, ?_, fun key => ?_⟩
  · rw [valuesOf_concat_self, List.getLast?_concat] at hlast
    exact Option.some.inj hlast ▸ hdenotes
  · rw [valuesOf_concat_self] at hnone
    exact absurd hnone (List.append_ne_nil_of_right_ne_nil _ (List.cons_ne_nil _ _))
  · rintro (hzero : size = 0)
    subst hzero
    exact absurd hpos (by decide)
  · refine (h.setting key).trans ?_
    by_cases hkey : key = batchSizeKey
    · rw [if_pos hkey, if_pos hkey]
    · rw [if_neg hkey, if_neg hkey, valuesOf_concat_of_ne _ _ (Ne.symm hkey)]

theorem Holds.withSetting (h : Holds settings c) (hkey : key ≠ batchSizeKey) :
    Holds (settings ++ [(key, value)]) (c.withSetting key value) := by
  have hsizes : valuesOf batchSizeKey (settings ++ [(key, value)]) =
      valuesOf batchSizeKey settings := valuesOf_concat_of_ne _ _ hkey
  refine ⟨hsizes ▸ h.size, hsizes ▸ h.usual, h.positive, fun name => ?_⟩
  rw [setting?_withSetting]
  by_cases hname : key = name
  · subst hname
    rw [if_pos rfl, if_neg hkey, valuesOf_concat_self, List.getLast?_concat]
  · rw [if_neg hname, valuesOf_concat_of_ne _ _ hname]
    exact h.setting name

/-- The places of a configuration are all that there is to it. -/
theorem Holds.unique (h : Holds settings c)
    (h' : Holds other c') (same : ∀ key, valuesOf key other = valuesOf key settings) : c' = c := by
  obtain ⟨size, map⟩ := c
  obtain ⟨size', map'⟩ := c'
  have hsize : size' = size := by
    cases hlast : (valuesOf batchSizeKey settings).getLast? with
    | none =>
        have hnil := List.getLast?_eq_none_iff.mp hlast
        exact (h'.usual ((same _).trans hnil)).trans (h.usual hnil).symm
    | some value =>
        have hread := size?_trim_iff.mpr (h.size value hlast)
        have hread' := size?_trim_iff.mpr (h'.size value ((same _).symm ▸ hlast))
        exact Option.some.inj (hread'.symm.trans hread)
  have hmap : map' = map := by
    refine Std.ExtTreeMap.ext_getElem? fun key => ?_
    exact (h'.setting key).trans (same key ▸ (h.setting key).symm)
  rw [hsize, hmap]

/-! ### Setting after setting -/

theorem ofSettings_concat (settings : List (String × String)) (key value : String) :
    ofSettings (settings ++ [(key, value)]) =
      (ofSettings settings).bind fun c => c.apply key value := by
  rw [ofSettings, List.foldlM_append]
  refine bind_congr fun c => ?_
  rw [List.foldlM_cons]
  exact bind_pure (c.apply key value)

/-- One more setting is taken in, or it is the first invalid batch size. -/
theorem Holds.apply_cases (hvalid : ∀ text, (batchSizeKey, text) ∈ settings → Valid text)
    (h : Holds settings c) (key value : String) :
    (∃ c', c.apply key value = .ok c' ∧
        (∀ text, (batchSizeKey, text) ∈ settings ++ [(key, value)] → Valid text) ∧
        Holds (settings ++ [(key, value)]) c') ∨
      c.apply key value = .error (.notPositive value) ∧
        FirstInvalid (settings ++ [(key, value)]) value := by
  rw [apply]
  by_cases hkey : key = batchSizeKey
  · subst hkey
    rw [if_pos rfl]
    cases hsize : batchSizeOf? value with
    | some size =>
        refine Or.inl ⟨_, rfl, fun text htext => ?_, h.withBatchSize hsize⟩
        rcases List.mem_append.mp htext with htext | htext
        · exact hvalid text htext
        · obtain ⟨-, rfl⟩ := Prod.mk.inj (List.mem_singleton.mp htext)
          exact valid_iff.mpr ⟨size, hsize⟩
    | none => exact Or.inr ⟨rfl, .intro [] hvalid (not_valid_iff.mpr hsize)⟩
  · rw [if_neg hkey]
    refine Or.inl ⟨_, rfl, fun text htext => ?_, h.withSetting hkey⟩
    rcases List.mem_append.mp htext with htext | htext
    · exact hvalid text htext
    · exact absurd (Prod.mk.inj (List.mem_singleton.mp htext)).1.symm hkey

/-- Settings leave a configuration that holds their last values, or their first invalid batch size
is the fault. -/
theorem ofSettings_cases (settings : List (String × String)) :
    (∃ c, ofSettings settings = .ok c ∧
        (∀ value, (batchSizeKey, value) ∈ settings → Valid value) ∧ Holds settings c) ∨
      ∃ value, ofSettings settings = .error (.notPositive value) ∧ FirstInvalid settings value := by
  -- From the first setting to the last: each decides its own place over those before it.
  induction settings using List.reverseRecOn with
  | nil => exact Or.inl ⟨{}, rfl, nofun, holds_nil⟩
  | append_singleton settings pair ih =>
      obtain ⟨key, value⟩ := pair
      rw [ofSettings_concat]
      rcases ih with ⟨c, hc, hvalid, hholds⟩ | ⟨first, hfirst, hinvalid⟩
      · rw [hc]
        rcases hholds.apply_cases hvalid key value with hnext | ⟨hfault, hinvalid⟩
        · exact Or.inl hnext
        · exact Or.inr ⟨value, hfault, hinvalid⟩
      · exact Or.inr ⟨first, by rw [hfirst]; rfl, hinvalid.append [(key, value)]⟩

/-- The outcome is a fault just when an invalid batch size is found. -/
theorem ofSettings_eq_error :
    ofSettings settings = .error (.notPositive value) ↔ invalid? settings = some value := by
  rcases ofSettings_cases settings with ⟨c, hc, hvalid, -⟩ | ⟨first, hfirst, hinvalid⟩
  · rw [hc, invalid?_eq_none.mpr hvalid]
    exact iff_of_false nofun nofun
  · rw [hfirst, hinvalid.invalid?_eq, Except.error.injEq, Fault.notPositive.injEq,
      Option.some.injEq]

/-- Settings that give every key the same values in the same order have the same outcome. -/
theorem ofSettings_congr (same : ∀ key, valuesOf key other = valuesOf key settings) :
    ofSettings other = ofSettings settings := by
  have hinvalid : invalid? other = invalid? settings := by rw [invalid?, invalid?, same]
  rcases ofSettings_cases settings with ⟨c, hc, -, hholds⟩ | ⟨first, hfirst, -⟩
  · rcases ofSettings_cases other with ⟨c', hc', -, hholds'⟩ | ⟨first', hfirst', -⟩
    · rw [hc, hc', hholds.unique hholds' same]
    · have hfault := ofSettings_eq_error.mpr (hinvalid ▸ ofSettings_eq_error.mp hfirst')
      cases hc.symm.trans hfault
  · rw [hfirst]
    exact ofSettings_eq_error.mpr (hinvalid ▸ ofSettings_eq_error.mp hfirst)

/-- **Settings are checked one by one, and the last value of a key stays.**  They make a
configuration just when every batch size among them is valid.  It has the last batch size and the
last value of every other key, in whatever order settings of different keys come.  Otherwise the
first batch size that is not valid is the complaint, as it was written, whatever follows it. -/
theorem ofSettings_outcome (settings : List (String × String)) :
    ((∃ c, ofSettings settings = .ok c) ↔
        ∀ value, (batchSizeKey, value) ∈ settings → Valid value) ∧
      (∀ c, ofSettings settings = .ok c → Holds settings c) ∧
      (∀ other, (∀ key, valuesOf key other = valuesOf key settings) →
        ofSettings other = ofSettings settings) ∧
      ∀ err, (ofSettings settings).mapError Fault.toError = .error err ↔
        ∃ front value back, settings = front ++ (batchSizeKey, value) :: back ∧
          (∀ earlier, (batchSizeKey, earlier) ∈ front → Valid earlier) ∧ ¬ Valid value ∧
          err = .configuration
            ("batch.size must be a positive integer, got '" ++ value ++ "'") := by
  rcases ofSettings_cases settings with ⟨c, hc, hvalid, hholds⟩ | ⟨first, hfirst, hinvalid⟩
  · refine ⟨iff_of_true ⟨c, hc⟩ hvalid, fun c' hc' => ?_, fun other => ofSettings_congr,
      fun err => iff_of_false ?_ ?_⟩
    · exact Except.ok.inj (hc.symm.trans hc') ▸ hholds
    · rw [hc]
      nofun
    · rintro ⟨front, value, back, rfl, -, hinvalid, -⟩
      exact hinvalid (hvalid value (by simp))
  · refine ⟨iff_of_false ?_ ?_, fun c hc => ?_, fun other => ofSettings_congr, fun err => ?_⟩
    · rintro ⟨c, hc⟩
      cases hc.symm.trans hfirst
    · obtain ⟨back, -, hinvalid⟩ := hinvalid
      exact fun hvalid => hinvalid (hvalid _ (by simp))
    · cases hc.symm.trans hfirst
    · constructor
      · intro herr
        obtain ⟨back, hfront, hinvalid⟩ := hinvalid
        rw [hfirst] at herr
        exact ⟨_, first, back, rfl, hfront, hinvalid, (Except.error.inj herr).symm⟩
      · rintro ⟨front, value, back, rfl, hfront, hinvalid, rfl⟩
        have hfirst : FirstInvalid _ value := .intro back hfront hinvalid
        rw [ofSettings_eq_error.mpr hfirst.invalid?_eq]
        rfl

/-- Settings with two batch sizes, one with a plus, zeros and blanks, and a key that repeats. -/
def mixed : List (String × String) :=
  [("tmp.dir", "/tmp"), ("batch.size", "8"), ("tmp.dir", "/var"), ("batch.size", "\u00a0+064\t")]

/-- The settings of `mixed`, those of each key together. -/
def grouped : List (String × String) :=
  [("batch.size", "8"), ("batch.size", "\u00a0+064\t"), ("tmp.dir", "/tmp"), ("tmp.dir", "/var")]

theorem ofSettings_outcome_mixed :
    ∃ c, ofSettings mixed = .ok c ∧ ofSettings grouped = .ok c ∧ c.batchSize = 64 ∧
      c.setting? "tmp.dir" = some "/var" ∧ c.setting? "batch.size" = none ∧
      (ofSettings (mixed ++ [("batch.size", " 0"), ("batch.size", "lots")])).mapError
        Fault.toError = .error
          (.configuration "batch.size must be a positive integer, got ' 0'") := by
  have hshort : Valid "8" := valid_iff.mpr ⟨8, by decide +kernel⟩
  have hsixtyFour : Valid "\u00a0+064\t" := valid_iff.mpr ⟨64, by decide +kernel⟩
  have hzero : ¬ Valid " 0" := not_valid_iff.mpr (by decide +kernel)
  have hvalid : ∀ value, (batchSizeKey, value) ∈ mixed → Valid value := by
    simp [mixed, batchSizeKey, hshort, hsixtyFour]
  obtain ⟨hsuccess, hholds, hsame, -⟩ := ofSettings_outcome mixed
  obtain ⟨c, hc⟩ := hsuccess.mpr hvalid
  have hlast := hholds c hc
  have hgrouped : ∀ key, valuesOf key grouped = valuesOf key mixed := by
    intro key
    by_cases htmp : "tmp.dir" = key
    · subst htmp
      rfl
    · by_cases hsize : "batch.size" = key
      · subst hsize
        rfl
      · simp [valuesOf, grouped, mixed, htmp, hsize]
  refine ⟨c, hc, (hsame grouped hgrouped).trans hc, ?_, hlast.setting _, hlast.setting _, ?_⟩
  · have hread : Numeral.size? (Text.trim "\u00a0+064\t".toList) = some 64 := by decide +kernel
    exact Option.some.inj ((size?_trim_iff.mpr (hlast.size _ rfl)).symm.trans hread)
  · obtain ⟨-, -, -, hfault⟩ :=
      ofSettings_outcome (mixed ++ [("batch.size", " 0"), ("batch.size", "lots")])
    exact (hfault _).mpr ⟨mixed, " 0", [("batch.size", "lots")], rfl, hvalid, hzero, rfl⟩

end Config

end SelectPlanner
