/-
Configurations as JSON.

A configuration is a record in which both fields may be left out; as an array it may end early.
The settings are an object of strings, and of a name that repeats the last value stays.
-/
import SelectPlanner.Config
import SelectPlanner.Json.Reader
import SelectPlanner.Json.Shape

namespace SelectPlanner.Config

/-- The fields of a configuration. -/
def fieldNames : List String := ["batch_size", "settings"]

/-- The values of the fields that a configuration has. -/
def fields? : Json → Option (List (Option Json))
  | .array items =>
    if items.length ≤ fieldNames.length then
      some (items.map some ++ List.replicate (fieldNames.length - items.length) none)
    else none
  | j => j.fields? fieldNames

/-- The settings that a JSON object lists. -/
def settingsOf? : Json → Option (List (String × String))
  | .object members => members.mapM fun (name, value) => value.string?.map (name, ·)
  | _ => none

/-- The configuration that a JSON value is. -/
def ofRecord? (j : Json) : Option Config :=
  match fields? j with
  | some [batchSize, settings] => do
    let size ← batchSize.elim (some ({} : Config).batchSize) Json.size?
    let pairs ← settings.elim (some []) settingsOf?
    some { batchSize := size, settings := Std.ExtTreeMap.ofList pairs }
  | _ => none

/-- The usable configuration that a JSON value is. -/
def ofJson (j : Json) : Except Fault Config :=
  match ofRecord? j with
  | none => .error .malformed
  | some c => if c.batchSize = 0 then .error .zeroBatchSize else .ok c

/-- The usable configuration that a JSON text is. -/
def ofJsonText (text : String) : Except Fault Config :=
  match Json.ofText? text with
  | none => .error .malformed
  | some j => ofJson j

end SelectPlanner.Config
