import BaselineAudit.Feature.Level
import BaselineAudit.Report.Score
import BaselineAudit.Terminal.Paint
import BaselineAudit.Text.Words

/-!
# The command line

The arguments of the command: options with a value, switches, and one file. Each may be given once.
An argument behind `--` is a file even if it starts with a dash.
-/

namespace BaselineAudit.Command

/-- What a run is asked to do. -/
structure Options where
  /-- The file to audit. -/
  input : Option String := none
  /-- The tag of its language. -/
  lang : String := "auto"
  threshold : Option Threshold := none
  /-- The file with the data set. -/
  data : Option String := none
  /-- The settings file. -/
  config : Option String := none
  json : Bool := false
  score : Bool := false
  filter : SeverityFilter := .all
  a11y : Bool := false
  color : Option ColorMode := none
  /-- How much is logged. -/
  logLevel : String := "warn"
  failOnIssues : Bool := false
  deriving DecidableEq, Repr

/-- What can be given on the command line. -/
inductive Param where
  | file
  | lang
  | minLevel
  | data
  | config
  | json
  | score
  | filter
  | a11y
  | color
  | logLevel
  | failOnIssues
  | help
  | version
  deriving DecidableEq, Repr

namespace Param

/-- All that has a name on the command line, in the order of the help. -/
def named : List Param :=
  [lang, minLevel, data, config, json, score, filter, a11y, color, logLevel, failOnIssues, help,
    version]

/-- The name on the command line, without its dashes. -/
def long : Param → String
  | file => ""
  | lang => "lang"
  | minLevel => "min-level"
  | data => "data"
  | config => "config"
  | json => "json"
  | score => "score"
  | filter => "filter"
  | a11y => "a11y"
  | color => "color"
  | logLevel => "log-level"
  | failOnIssues => "fail-on-issues"
  | help => "help"
  | version => "version"

/-- The name of one letter. -/
def short? : Param → Option Char
  | help => some 'h'
  | version => some 'V'
  | _ => none

/-- What stands for the value in the help. -/
def placeholder? : Param → Option String
  | file => some "FILE"
  | lang => some "LANG"
  | minLevel => some "MIN_LEVEL"
  | data | config => some "PATH"
  | filter => some "FILTER"
  | color => some "COLOR"
  | logLevel => some "LOG_LEVEL"
  | json | score | a11y | failOnIssues | help | version => none

/-- Does a value belong to it? -/
def takesValue (p : Param) : Bool := p.placeholder?.isSome

/-- How it is written on the command line, as messages show it. -/
def usage (p : Param) : String :=
  match p, p.placeholder? with
  | file, _ => "[FILE]"
  | p, some value => "--" ++ p.long ++ " <" ++ value ++ ">"
  | p, none => "--" ++ p.long

/-- The parameter with a name. -/
def ofLong? (name : String) : Option Param := named.find? (·.long = name)

/-- The parameter with a letter. -/
def ofShort? (c : Char) : Option Param := named.find? (·.short? = some c)

end Param

/-- What is wrong with a command line. -/
inductive UsageError where
  /-- There is no such argument. -/
  | unknown (argument : String)
  | missingValue (param : Param)
  /-- A switch has a value. -/
  | extraValue (param : Param) (value : String)
  | repeated (param : Param)
  | invalid (param : Param) (value reason : String)
  deriving DecidableEq, Repr

/-- What is said about a wrong command line. -/
def UsageError.message : UsageError → String
  | unknown argument => "unexpected argument '" ++ argument ++ "' found"
  | missingValue p => "a value is required for '" ++ p.usage ++ "' but none was supplied"
  | extraValue p value =>
    "unexpected value '" ++ value ++ "' for '" ++ p.usage ++ "' found; no more were expected"
  | repeated p => "the argument '" ++ p.usage ++ "' cannot be used multiple times"
  | invalid p value reason => "invalid value '" ++ value ++ "' for '" ++ p.usage ++ "': " ++ reason

/-- Why no run follows from a command line. -/
inductive Stop where
  | help
  | version
  | error (e : UsageError)
  deriving DecidableEq, Repr

namespace Options

/-- Reads the value of a parameter. -/
def readValue {α : Type} (p : Param) (parse : String → Except String α) (value : String) :
    Except UsageError α :=
  match parse value with
  | .ok a => .ok a
  | .error reason => .error (.invalid p value reason)

/-- Reads the path that is the value of a parameter. -/
def readPath (p : Param) (value : String) : Except UsageError String :=
  if value.isEmpty then .error (.missingValue p) else .ok value

/-- Options with the value of a parameter. -/
def setValue (o : Options) (value : String) : Param → Except UsageError Options
  | .file => do pure { o with input := some (← readPath .file value) }
  | .lang => .ok { o with lang := value }
  | .minLevel => do pure { o with threshold := some (← readValue .minLevel Threshold.parse value) }
  | .data => do pure { o with data := some (← readPath .data value) }
  | .config => do pure { o with config := some (← readPath .config value) }
  | .filter => do pure { o with filter := ← readValue .filter SeverityFilter.parse value }
  | .color => do pure { o with color := some (← readValue .color ColorMode.parse value) }
  | .logLevel => .ok { o with logLevel := value }
  | .json | .score | .a11y | .failOnIssues | .help | .version => .ok o

/-- Options with a switch turned on. -/
def turnOn (o : Options) : Param → Options
  | .json => { o with json := true }
  | .score => { o with score := true }
  | .a11y => { o with a11y := true }
  | .failOnIssues => { o with failOnIssues := true }
  | _ => o

end Options

/-! ## Reading arguments -/

/-- A parameter that was given last and does not count yet, with its value if that was given. -/
structure Pending where
  param : Param
  value : Option String

/-- The arguments that were read. -/
structure Draft where
  options : Options := {}
  /-- The parameters that count. -/
  given : List Param := []
  /-- The one that does not count yet. -/
  pending : Option Pending := none
  /-- A file was given. -/
  hasFile : Bool := false

namespace Draft

/-- Each parameter is given once. -/
def once (d : Draft) (p : Param) : Except UsageError Draft :=
  if d.given.contains p then .error (.repeated p) else .ok { d with given := p :: d.given }

/-- The parameter that was given last counts. -/
def settle (d : Draft) : Except UsageError Draft :=
  match d.pending with
  | none => .ok d
  | some ⟨p, none⟩ => .error (.missingValue p)
  | some ⟨p, some value⟩ => do
    let d ← { d with pending := none }.once p
    pure { d with options := ← d.options.setValue value p }

/-- A parameter is given, and its value may follow. -/
def await (d : Draft) (p : Param) (value : Option String) : Except UsageError Draft := do
  pure { ← d.settle with pending := some ⟨p, value⟩ }

/-- A switch is given. -/
def switch (d : Draft) (p : Param) : Except Stop Draft := do
  let d ← d.settle.mapError .error
  match p with
  | .help => .error .help
  | .version => .error .version
  | p =>
    let d ← (d.once p).mapError .error
    pure { d with options := d.options.turnOn p }

/-- An option with its value is given at once. -/
def setNow (d : Draft) (p : Param) (value : String) : Except UsageError Draft := do
  (← d.await p (some value)).settle

/-- A parameter is given by its name, and maybe its value behind a `=`. -/
def takeLong (d : Draft) (name : String) (value : Option String) : Except Stop Draft :=
  match Param.ofLong? name, value with
  | none, _ => .error (.error (.unknown ("--" ++ name)))
  | some p, some value =>
    if p.takesValue then (d.setNow p value).mapError .error
    else .error (.error (.extraValue p value))
  | some p, none =>
    if p.takesValue then (d.await p none).mapError .error else d.switch p

/-- Parameters are given by their letters. -/
def takeShort (d : Draft) : List Char → Except Stop Draft
  | [] => .ok d
  | c :: cs =>
    match Param.ofShort? c with
    | none => .error (.error (.unknown (String.ofList ['-', c])))
    | some p => do (← d.switch p).takeShort cs

/-- A file is given. -/
def takeFile (d : Draft) (path : String) : Except Stop Draft :=
  if d.hasFile then .error (.error (.unknown path))
  else do pure { ← (d.await .file (some path)).mapError .error with hasFile := true }

/-- A text without dashes in front is the value of the parameter that waits for one, or else a
file. -/
def takeText (d : Draft) (text : String) : Except Stop Draft :=
  match d.pending with
  | some ⟨p, none⟩ => .ok { d with pending := some ⟨p, some text⟩ }
  | _ => d.takeFile text

/-- One more argument. -/
def take (d : Draft) (argument : String) : Except Stop Draft :=
  match argument.toList with
  | '-' :: '-' :: cs =>
    match cs.span (· != '=') with
    | (name, []) => d.takeLong (String.ofList name) none
    | (name, _ :: value) => d.takeLong (String.ofList name) (some (String.ofList value))
  | '-' :: c :: cs => d.takeShort (c :: cs)
  | _ => d.takeText argument

end Draft

/-- Reads arguments. Behind `--`, all of them are files. -/
def readArguments : (onlyFiles : Bool) → Draft → List String → Except Stop Draft
  | _, d, [] => d.settle.mapError .error
  | true, d, a :: rest => do readArguments true (← d.takeFile a) rest
  | false, d, a :: rest =>
    if a = "--" then readArguments true d rest else do readArguments false (← d.take a) rest

/-- The options that arguments give. -/
def Options.ofArguments (arguments : List String) : Except Stop Options := do
  pure (← readArguments false {} arguments).options

end BaselineAudit.Command
