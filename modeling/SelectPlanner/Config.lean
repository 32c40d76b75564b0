/-
The configuration of the execution of plans.

It is a batch size and settings that are passed through untouched.  Built from settings, the last
value of a key stays; the key of the batch size is read as a number, and the first value there that
is no positive number of 64 bits is the complaint.
-/
import SelectPlanner.Error
import SelectPlanner.Text.Blank
import Std.Data.ExtTreeMap

namespace SelectPlanner

/-- What the execution of plans is told. -/
structure Config where
  /-- The number of rows in a batch. -/
  batchSize : UInt64 := 1024
  /-- Everything else. -/
  settings : Std.ExtTreeMap String String := ∅
  deriving DecidableEq, Inhabited

namespace Config

/-- Why a configuration cannot be used. -/
inductive Fault where
  /-- The setting of the batch size is no positive number. -/
  | notPositive (text : String)
  /-- The batch size is zero. -/
  | zeroBatchSize
  /-- The text is no configuration. -/
  | malformed
  deriving DecidableEq

/-- The key of the batch size among the settings. -/
def batchSizeKey : String := "batch.size"

/-- The words for a fault. -/
def Fault.message : Fault → String
  | notPositive text => batchSizeKey ++ " must be a positive integer, got '" ++ text ++ "'"
  | zeroBatchSize => "batch_size must be greater than zero"
  | malformed => "malformed configuration"

/-- A fault as an error. -/
def Fault.toError (fault : Fault) : Error := .configuration fault.message

/-- The same configuration with another batch size. -/
def withBatchSize (c : Config) (batchSize : UInt64) : Config :=
  { c with batchSize }

/-- The same configuration with one more setting. -/
def withSetting (c : Config) (key value : String) : Config :=
  { c with settings := c.settings.insert key value }

/-- The value of a setting. -/
def setting? (c : Config) (key : String) : Option String := c.settings[key]?

/-- The batch size that a text denotes, blanks around it apart. -/
def batchSizeOf? (text : String) : Option UInt64 :=
  (Numeral.size? (Text.trim text.toList)).filter (0 < ·)

/-- Applies one of the settings that a configuration is built from. -/
def apply (c : Config) (key value : String) : Except Fault Config :=
  if key = batchSizeKey then
    match batchSizeOf? value with
    | some size => .ok { c with batchSize := size }
    | none => .error (.notPositive value)
  else .ok { c with settings := c.settings.insert key value }

/-- The configuration that settings make, one after the other. -/
def ofSettings (settings : List (String × String)) : Except Fault Config :=
  settings.foldlM (fun c (key, value) => c.apply key value) {}

end Config

end SelectPlanner
