/-
The ways of building a configuration agree.

A configuration comes from a JSON object, from settings among which one is the batch size, or is put
together by hand: the batch size first and the settings one after the other.  The three share little.
The JSON reader gives a number, and whether it is zero is asked of the finished configuration; among
the settings the batch size is a text, which is trimmed and read where it stands.

What makes them agree is that the batch size and the settings do not get in one another's way, so it
makes no difference where among the settings the batch size stands, and that a number of 64 bits
reads back from its digits in a text as it does in JSON.  What a configuration then holds is said key
by key: of the values that the settings give a key, which `valuesOf` takes out of the others, the last
one stays.
-/
import SelectPlanner.Config.Codec
import SelectPlanner.Proofs.JsonText

namespace SelectPlanner.Config

/-! ### The three ways -/

/-- A configuration with these settings added, one after the other. -/
def withSettings (c : Config) (settings : List (String × String)) : Config :=
  settings.foldl (fun c (key, value) => c.withSetting key value) c

/-- A batch size and settings as a JSON object, in the order that they come in. -/
def record (size : UInt64) (settings : List (String × String)) : Json :=
  .object [("batch_size", .integer size.toNat),
    ("settings", .object (settings.map fun (key, value) => (key, .string value)))]

example : (record 256 [("tmp.dir", "/tmp")]).render =
    "\x7b\"batch_size\":256,\"settings\":\x7b\"tmp.dir\":\"/tmp\"\x7d\x7d" := by
  decide +kernel

variable {size : UInt64} {settings : List (String × String)} {c : Config}

theorem withSettings_append (c : Config) (front back : List (String × String)) :
    c.withSettings (front ++ back) = (c.withSettings front).withSettings back :=
  List.foldl_append

/-- Settings go into the map of settings, and nowhere else. -/
theorem withSettings_eq (c : Config) (settings : List (String × String)) :
    c.withSettings settings = { c with settings := c.settings.insertMany settings } := by
  induction settings generalizing c with
  | nil =>
      rw [Std.ExtTreeMap.insertMany_nil]
      rfl
  | cons pair settings ih =>
      rw [Std.ExtTreeMap.insertMany_cons]
      exact ih (c.withSetting pair.1 pair.2)

theorem batchSize_withSettings (c : Config) (settings : List (String × String)) :
    (c.withSettings settings).batchSize = c.batchSize := by
  rw [withSettings_eq]

/-- The batch size and the settings do not get in one another's way. -/
theorem withSettings_withBatchSize (c : Config) (size : UInt64)
    (settings : List (String × String)) :
    (c.withBatchSize size).withSettings settings =
      (c.withSettings settings).withBatchSize size := by
  rw [withSettings_eq, withSettings_eq]
  rfl

/-! ### The settings of one key -/

/-- The values that settings give a key, from the first to the last. -/
def valuesOf (key : String) (settings : List (String × String)) : List String :=
  (settings.filter (·.1 = key)).map Prod.snd

theorem valuesOf_append (key : String) (front back : List (String × String)) :
    valuesOf key (front ++ back) = valuesOf key front ++ valuesOf key back := by
  rw [valuesOf, List.filter_append, List.map_append]
  rfl

theorem valuesOf_cons_self (key value : String) (settings : List (String × String)) :
    valuesOf key ((key, value) :: settings) = value :: valuesOf key settings := by
  rw [valuesOf, List.filter_cons_of_pos (by simp)]
  rfl

theorem valuesOf_cons_of_ne {name key : String} (h : name ≠ key) (value : String)
    (settings : List (String × String)) :
    valuesOf key ((name, value) :: settings) = valuesOf key settings := by
  rw [valuesOf, List.filter_cons_of_neg (by simpa using h)]
  rfl

theorem valuesOf_concat_self (settings : List (String × String)) (key value : String) :
    valuesOf key (settings ++ [(key, value)]) = valuesOf key settings ++ [value] := by
  rw [valuesOf_append, valuesOf_cons_self]
  rfl

theorem valuesOf_concat_of_ne {name key : String} (settings : List (String × String))
    (value : String) (h : name ≠ key) :
    valuesOf key (settings ++ [(name, value)]) = valuesOf key settings := by
  rw [valuesOf_append, valuesOf_cons_of_ne h]
  exact List.append_nil _

theorem mem_valuesOf {key value : String} :
    value ∈ valuesOf key settings ↔ (key, value) ∈ settings := by
  simp [valuesOf]

/-- A setting changes the place of its own key, and no other. -/
theorem setting?_withSetting (c : Config) (name value key : String) :
    (c.withSetting name value).setting? key = if name = key then some value else c.setting? key := by
  rw [setting?, withSetting, Std.ExtTreeMap.getElem?_insert]
  simp only [Std.compare_eq_iff_eq, setting?]

/-- Of a key that settings give values the last one stays, and every other has what it had. -/
theorem setting?_withSettings (c : Config) (settings : List (String × String)) (key : String) :
    (c.withSettings settings).setting? key =
      (valuesOf key settings).getLast?.or (c.setting? key) := by
  induction settings generalizing c with
  | nil => rfl
  | cons pair settings ih =>
      obtain ⟨name, value⟩ := pair
      refine (ih (c.withSetting name value)).trans ?_
      rw [setting?_withSetting]
      by_cases h : name = key
      · subst h
        rw [if_pos rfl, valuesOf_cons_self, List.getLast?_cons]
        cases (valuesOf name settings).getLast? <;> rfl
      · rw [if_neg h, valuesOf_cons_of_ne h]

/-! ### From a JSON object -/

theorem size?_integer (size : UInt64) : Json.size? (.integer size.toNat) = some size := by
  have hsize : size.toNat < 0x10000000000000000 := size.toNat_lt
  rw [Json.size?, if_pos ⟨by omega, by omega⟩]
  simp

theorem settingsOf?_strings (settings : List (String × String)) :
    settingsOf? (.object (settings.map fun (key, value) => (key, .string value))) =
      some settings := by
  rw [settingsOf?]
  induction settings with
  | nil => rfl
  | cons pair settings ih =>
      rw [List.map_cons, List.mapM_cons, ih]
      rfl

theorem fields?_record (size : UInt64) (settings : List (String × String)) :
    fields? (record size settings) =
      some [some (.integer size.toNat),
        some (.object (settings.map fun (key, value) => (key, .string value)))] := by
  simp [fields?, record, Json.fields?, fieldNames, Json.valuesOf]

theorem ofRecord?_record (size : UInt64) (settings : List (String × String)) :
    ofRecord? (record size settings) = some ((withBatchSize {} size).withSettings settings) := by
  rw [ofRecord?, fields?_record]
  dsimp only
  rw [Option.elim_some, Option.elim_some, size?_integer, settingsOf?_strings]
  show some (Config.mk size (Std.ExtTreeMap.ofList settings)) = _
  rw [Std.ExtTreeMap.ofList_eq_insertMany_empty, withSettings_eq]
  rfl

theorem readsBack_record (size : UInt64) (settings : List (String × String)) :
    (record size settings).ReadsBack := by
  refine Json.readsBack_object (List.forall_mem_cons.mpr ⟨Json.readsBack_integer size.toNat_lt, ?_⟩)
  refine List.forall_mem_singleton.mpr (Json.readsBack_object fun member hmember => ?_)
  obtain ⟨pair, -, rfl⟩ := List.mem_map.mp hmember
  exact Json.readsBack_string pair.2

/-- The only fault of a text that holds a batch size and settings is that the size is zero. -/
theorem ofJsonText_of_record {text : String} (h : Json.ofText? text = some (record size settings)) :
    ofJsonText text =
      if size = 0 then .error .zeroBatchSize
      else .ok ((withBatchSize {} size).withSettings settings) := by
  rw [ofJsonText, h]
  dsimp only
  rw [ofJson, ofRecord?_record]
  dsimp only
  rw [batchSize_withSettings]
  rfl

/-! ### From settings -/

/-- Digits have no blanks at their ends, so nothing is trimmed off. -/
theorem trim_digits (n : Nat) : Text.trim (Numeral.digits n) = Numeral.digits n := by
  have hdigit : ∀ c ∈ Numeral.digits n, Text.isBlank c = false := fun c hc =>
    Text.isBlank_of_isDigit (Numeral.isDigit_of_mem_digits hc)
  refine Text.trim_of_ends ?_ ?_
  · cases h : (Numeral.digits n).head? with
    | none => rfl
    | some c => simp [hdigit c (List.mem_of_head? h)]
  · cases h : (Numeral.digits n).getLast? with
    | none => rfl
    | some c => simp [hdigit c (List.mem_of_getLast? h)]

theorem batchSizeOf?_render (size : UInt64) :
    batchSizeOf? (Numeral.render size.toNat) = if size = 0 then none else some size := by
  rw [batchSizeOf?, Numeral.toList_render, trim_digits, Numeral.size?_digits size.toNat_lt,
    UInt64.ofNat_toNat, Option.filter_some]
  by_cases h : size = 0
  · subst h
    rfl
  · have hpos : 0 < size := UInt64.pos_iff_ne_zero.mpr h
    simp [h, hpos]

/-- Settings under other keys are added as they come. -/
theorem foldlM_apply (plain : ∀ pair ∈ settings, pair.1 ≠ batchSizeKey) (c : Config) :
    settings.foldlM (fun c (key, value) => c.apply key value) c =
      .ok (c.withSettings settings) := by
  induction settings generalizing c with
  | nil => rfl
  | cons pair settings ih =>
      obtain ⟨hpair, hsettings⟩ := List.forall_mem_cons.mp plain
      rw [List.foldlM_cons]
      show c.apply pair.1 pair.2 >>= _ = _
      rw [apply, if_neg hpair]
      exact ih hsettings (c.withSetting pair.1 pair.2)

/-- A batch size is put in before the settings behind it, or is the fault. -/
theorem foldlM_batchSize {back : List (String × String)}
    (plain : ∀ pair ∈ back, pair.1 ≠ batchSizeKey) (value : String) (c : Config) :
    ((batchSizeKey, value) :: back).foldlM (fun c (key, value) => c.apply key value) c =
      match batchSizeOf? value with
      | some size => .ok ((c.withBatchSize size).withSettings back)
      | none => .error (.notPositive value) := by
  rw [List.foldlM_cons]
  show c.apply batchSizeKey value >>= _ = _
  rw [apply, if_pos rfl]
  cases batchSizeOf? value with
  | none => rfl
  | some size => exact foldlM_apply plain (c.withBatchSize size)

/-- Where the batch size stands among the settings makes no difference. -/
theorem ofSettings_insert {front back : List (String × String)} (value : String)
    (plain : ∀ pair ∈ front ++ back, pair.1 ≠ batchSizeKey) :
    ofSettings (front ++ (batchSizeKey, value) :: back) =
      match batchSizeOf? value with
      | some size => .ok ((withBatchSize {} size).withSettings (front ++ back))
      | none => .error (.notPositive value) := by
  obtain ⟨hfront, hback⟩ := List.forall_mem_append.mp plain
  rw [ofSettings, List.foldlM_append, foldlM_apply hfront]
  refine (foldlM_batchSize hback value (withSettings {} front)).trans ?_
  cases batchSizeOf? value with
  | none => rfl
  | some size => simp only [withSettings_append, withSettings_withBatchSize]

/-- **The ways of building a configuration agree.**  The configuration that has the batch size and
then the settings one after the other has this batch size and, of every key, its last value.  The
text of a batch size and settings is read as the object of them.  From any text that is, and from the
settings with the batch size put in anywhere among them, comes this configuration; or an error from
both, where the batch size is zero. -/
theorem ways_agree (size : UInt64) (settings : List (String × String))
    (plain : ∀ pair ∈ settings, pair.1 ≠ batchSizeKey) :
    ((withBatchSize {} size).withSettings settings).batchSize = size ∧
    (∀ key, ((withBatchSize {} size).withSettings settings).setting? key =
      (valuesOf key settings).getLast?) ∧
    Json.ofText? (record size settings).render = some (record size settings) ∧
    ∀ text front back, Json.ofText? text = some (record size settings) →
      settings = front ++ back →
      (1 ≤ size →
        ofJsonText text = .ok ((withBatchSize {} size).withSettings settings) ∧
        ofSettings (front ++ (batchSizeKey, Numeral.render size.toNat) :: back) =
          .ok ((withBatchSize {} size).withSettings settings)) ∧
      (size = 0 →
        (ofJsonText text).mapError Fault.toError =
          .error (.configuration "batch_size must be greater than zero") ∧
        (ofSettings (front ++ (batchSizeKey, Numeral.render size.toNat) :: back)).mapError
            Fault.toError =
          .error (.configuration "batch.size must be a positive integer, got '0'")) := by
  refine ⟨batchSize_withSettings _ settings, fun key => ?_,
    Json.ofText?_render (readsBack_record size settings), ?_⟩
  · have hempty : (withBatchSize {} size).setting? key = none := Std.ExtTreeMap.getElem?_empty
    rw [setting?_withSettings, hempty, Option.or_none]
  rintro text front back htext rfl
  rw [ofJsonText_of_record htext, ofSettings_insert _ plain, batchSizeOf?_render]
  refine ⟨fun hsize => ?_, fun hsize => ?_⟩
  · have hne : size ≠ 0 := by
      rintro rfl
      exact absurd hsize (by decide)
    rw [if_neg hne, if_neg hne]
    exact ⟨rfl, rfl⟩
  · subst hsize
    exact ⟨rfl, rfl⟩

/-- Settings in which a key repeats, with letters and a value that are escaped in JSON. -/
def repeated : List (String × String) :=
  [("tmp.dir", "/tmp"), ("größe", "\"\n\x01"), ("tmp.dir", "/var")]

theorem ways_agree_repeated :
    (∀ pair ∈ repeated, pair.1 ≠ batchSizeKey) ∧
    ofJsonText (record 18446744073709551615 repeated).render =
      .ok ((withBatchSize {} 18446744073709551615).withSettings repeated) ∧
    ofSettings (repeated.take 1 ++ (batchSizeKey, "18446744073709551615") :: repeated.drop 1) =
      .ok ((withBatchSize {} 18446744073709551615).withSettings repeated) ∧
    ((withBatchSize {} 18446744073709551615).withSettings repeated).batchSize =
      18446744073709551615 ∧
    ((withBatchSize {} 18446744073709551615).withSettings repeated).setting? "tmp.dir" =
      some "/var" ∧
    (ofJsonText (record 0 repeated).render).mapError Fault.toError =
      .error (.configuration "batch_size must be greater than zero") ∧
    (ofSettings (repeated.take 1 ++ (batchSizeKey, "0") :: repeated.drop 1)).mapError
        Fault.toError =
      .error (.configuration "batch.size must be a positive integer, got '0'") := by
  have plain : ∀ pair ∈ repeated, pair.1 ≠ batchSizeKey := by decide
  have split : repeated = repeated.take 1 ++ repeated.drop 1 :=
    (List.take_append_drop 1 repeated).symm
  have hlargest :
      Numeral.render (18446744073709551615 : UInt64).toNat = "18446744073709551615" := by
    decide +kernel
  obtain ⟨hsize, hlast, hread, hagree⟩ := ways_agree 18446744073709551615 repeated plain
  obtain ⟨hjson, hsettings⟩ := (hagree _ _ _ hread split).1 (by decide)
  obtain ⟨-, -, hread', hagree'⟩ := ways_agree 0 repeated plain
  obtain ⟨hjson', hsettings'⟩ := (hagree' _ _ _ hread' split).2 rfl
  rw [hlargest] at hsettings
  exact ⟨plain, hjson, hsettings, hsize, hlast "tmp.dir", hjson', hsettings'⟩

end SelectPlanner.Config
