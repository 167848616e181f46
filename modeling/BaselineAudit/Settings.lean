import BaselineAudit.Feature.Level
import BaselineAudit.File.Basic
import BaselineAudit.File.Path
import BaselineAudit.Terminal.Paint
import BaselineAudit.Toml.Document

/-!
# Settings

The settings of a project stand in the file `.baseline/config.toml`. All of them may be left out, and
keys that are not known are skipped.
-/

namespace BaselineAudit

/-- What a settings file sets. -/
structure Settings where
  /-- The level that usages must reach. -/
  threshold : Threshold := .high
  /-- The file with the data set. -/
  dataPath : Option String := none
  /-- Reports are written as JSON. -/
  json : Bool := false
  color : ColorMode := .auto
  deriving DecidableEq, Repr

namespace Settings

open Toml

/-! ## Reading values -/

mutual

/-- A value whose numbers have a size that can be read. -/
def isReadable : Value → Bool
  | .integer n => -(2 ^ 127) ≤ n && n < 2 ^ 128
  | .float overflows => !overflows
  | .array items | .tables items => areReadable items
  | .table _ entries => areEntriesReadable entries
  | .string _ | .boolean _ | .moment => true

/-- Values that can be read. -/
def areReadable : List Value → Bool
  | [] => true
  | v :: rest => isReadable v && areReadable rest

/-- Entries that can be read. -/
def areEntriesReadable : List (String × Value) → Bool
  | [] => true
  | (_, v) :: rest => isReadable v && areEntriesReadable rest

end

/-- A value without content. -/
def isEmptyValue : Value → Bool
  | .array [] | .table _ [] => true
  | _ => false

/-- A word, which may also stand as the only key of a table without content. -/
def word? : Value → Option String
  | .string text => some text
  | .table _ [(key, v)] => if isEmptyValue v then some key else none
  | _ => none

/-- A boolean. -/
def boolean? : Value → Option Bool
  | .boolean b => some b
  | _ => none

/-- A text. -/
def string? : Value → Option String
  | .string text => some text
  | _ => none

/-- The color mode that a value names. -/
def color? (v : Value) : Option ColorMode := (word? v).bind ColorMode.ofName?

/-- The threshold that a value names. -/
def threshold? (v : Value) : Option Threshold := (word? v).bind Threshold.ofName?

/-- Settings with an entry of the table `output`. -/
def setOutput (s : Settings) : String × Value → Option Settings
  | ("json", v) => do pure { s with json := ← boolean? v }
  | ("color", v) => do pure { s with color := ← color? v }
  | (_, v) => if isReadable v then some s else none

/-- Settings with the output settings that a value gives: by name, or in their order. -/
def setOutputs (s : Settings) : Value → Option Settings
  | .table _ entries => entries.foldlM setOutput s
  | .array [] | .moment => some s
  | .array [json] | .tables [json] => setOutput s ("json", json)
  | .array (json :: color :: _) | .tables (json :: color :: _) => do
    setOutput (← setOutput s ("json", json)) ("color", color)
  | _ => none

/-- Settings with an entry of a settings file. -/
def set (s : Settings) : String × Value → Option Settings
  | ("min_level", v) => do pure { s with threshold := ← threshold? v }
  | ("data_path", v) => do pure { s with dataPath := some (← string? v) }
  | ("output", v) => s.setOutputs v
  | (_, v) => if isReadable v then some s else none

/-- The settings that a text gives. -/
def parse? (text : String) : Option Settings := do
  match ← Toml.parse? text with
  | .table _ entries => entries.foldlM set {}
  | _ => none

/-! ## Files -/

/-- The path of the settings file of a project, below its directory. -/
def file : String := ".baseline/config.toml"

/-- Why a settings file gives no settings. -/
inductive Error where
  | unreadable (path : String) (cause : FileError)
  | malformed (path : String)
  deriving DecidableEq, Repr

/-- An error as it is shown. What is wrong with a text, and where, is left out. -/
def Error.message : Error → String
  | unreadable path cause => "failed to read " ++ path ++ ": " ++ cause.message
  | malformed path => "failed to parse " ++ path ++ ": TOML parse error"

/-- The settings in a file. -/
def ofFile (path : String) (content : Content) : Except Error Settings :=
  match content.text with
  | .error cause => .error (.unreadable path cause)
  | .ok text =>
    match parse? text with
    | some s => .ok s
    | none => .error (.malformed path)

/-- The settings in a file, or else those of an empty one. -/
def ofFileOrDefault (path : String) (content : Content) : Settings :=
  match ofFile path content with
  | .ok s => s
  | .error _ => {}

/-- Settings whose paths start at a directory. -/
def below (s : Settings) (directory : String) : Settings :=
  { s with dataPath := s.dataPath.map (Path.resolve directory) }

/-- The path of the settings file of the project in a directory. -/
def fileIn (directory : String) : String := Path.join directory file

/-- The settings of the project in a directory, by the content of their file. -/
def ofProject (directory : String) (content : Content) : Settings :=
  (ofFileOrDefault (fileIn directory) content).below directory

end Settings

end BaselineAudit
