import BaselineAudit.Json.Basic
import BaselineAudit.Text.Blank

/-!
# Baseline levels and thresholds

How widely a feature is supported, and how wide the support has to be for a usage to pass.
-/

namespace BaselineAudit

/-- How widely the core browsers support a feature. -/
inductive Level where
  /-- At least one core browser lacks it. -/
  | unsupported
  /-- Newly available in all core browsers. -/
  | low
  /-- Available in all core browsers for a sustained period. -/
  | high
  deriving DecidableEq, Repr, Inhabited

namespace Level

/-- A level as it is shown. -/
def name : Level → String
  | unsupported => "false"
  | low => "low"
  | high => "high"

/-- A level as it is exchanged: `false`, `"low"` or `"high"`. -/
def toJson : Level → Json
  | unsupported => .bool false
  | low => .string "low"
  | high => .string "high"

/-- Reads an exchanged level. -/
def ofJson? : Json → Option Level
  | .bool false => some unsupported
  | .string "low" => some low
  | .string "high" => some high
  | _ => none

theorem ofJson?_toJson (l : Level) : ofJson? l.toJson = some l := by
  cases l <;> rfl

end Level

/-- The level below which a usage is reported. -/
inductive Threshold where
  | low
  | high
  deriving DecidableEq, Repr, Inhabited

namespace Threshold

/-- `high` is met by `high` alone, `low` by every level but `unsupported`. -/
def accepts : Threshold → Level → Bool
  | high, .high => true
  | high, _ => false
  | low, .unsupported => false
  | low, _ => true

/-- A threshold as it is written in settings and reports. -/
def name : Threshold → String
  | low => "low"
  | high => "high"

/-- The threshold with a name. -/
def ofName? : String → Option Threshold
  | "low" => some low
  | "high" => some high
  | _ => none

/-- What is said about a word that names no threshold. -/
def unknownMessage (word : String) : String :=
  "invalid minimum level '" ++ word ++ "': expected low or high"

/-- Reads a threshold; blanks around it and the case of ASCII letters do not matter. -/
def parse (raw : String) : Except String Threshold :=
  let word := Text.normalWord raw
  match ofName? word with
  | some t => .ok t
  | none => .error (unknownMessage word)

end Threshold

end BaselineAudit
