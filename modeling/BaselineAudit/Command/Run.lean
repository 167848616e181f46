import BaselineAudit.Accessibility
import BaselineAudit.Audit.Analysis
import BaselineAudit.Command.Help
import BaselineAudit.File.Directory
import BaselineAudit.Json.Printer
import BaselineAudit.Report.Listing
import BaselineAudit.Settings

/-!
# Runs of the command

A run reads the settings, the data set and the file to audit, and prints the report. A `Host` is
where it reads them from: the system, or a directory in memory. The exit status is 1 if something
cannot be read, and 2 if the arguments are wrong or issues were asked to count as a failure.
-/

namespace BaselineAudit.Command

/-- What a run is given from outside. -/
structure Host (m : Type → Type) where
  /-- The directory in which the command runs, which may be gone. -/
  directory : m (Except FileError String)
  /-- The content of the file at a path. -/
  read : String → m Content
  /-- The standard input. -/
  input : m Content
  /-- The value of an environment variable. -/
  env : String → m (Option String)
  /-- Is the output a terminal? -/
  isTerminal : m Bool

/-- Why a run fails. -/
inductive Failure where
  /-- The directory in which the command runs is not known. -/
  | noDirectory (cause : FileError)
  | settings (cause : Settings.Error)
  /-- No data set was named. -/
  | noData
  | unreadableData (path : String) (cause : FileError)
  | invalidData (path : String)
  | unreadable (path : String) (cause : FileError)
  | unreadableInput (cause : FileError)
  deriving DecidableEq, Repr

/-- The environment variable that names the data set. -/
def dataVariable : String := "BASELINE_DATA"

/-- What is said about a failure, with its causes one behind the other. What the reader of a format has
to say about a text is left out. -/
def Failure.message : Failure → String
  | noDirectory cause => "failed to resolve current directory: " ++ cause.message
  | settings (.unreadable path cause) =>
    Settings.Error.message (.unreadable path cause) ++ ": " ++ cause.message
  | settings (.malformed path) => Settings.Error.message (.malformed path)
  | noData =>
    "no compatibility dataset: pass --data, set " ++ dataVariable ++ " or set data_path in "
      ++ Settings.file
  | unreadableData path cause =>
    "failed to load dataset " ++ path ++ ": failed to read compatibility dataset " ++ path ++ ": "
      ++ cause.message ++ ": " ++ cause.message
  | invalidData path => "failed to load dataset " ++ path ++ ": invalid compatibility dataset:"
  | unreadable path cause => "failed to read " ++ path ++ ": " ++ cause.message
  | unreadableInput cause => "failed to read stdin: " ++ cause.message

/-! ## What a run reads -/

section Reading

variable {m : Type → Type} [Monad m] (host : Host m)

/-- The settings in a file that was named, or else those of the project. -/
def readSettings (o : Options) : ExceptT Failure m Settings := do
  match o.config with
  | some path =>
    match Settings.ofFile path (← host.read path) with
    | .ok s => pure (s.below (Path.parent path))
    | .error e => throw (.settings e)
  | none =>
    match ← host.directory with
    | .ok directory => pure (.ofProject directory (← host.read (Settings.fileIn directory)))
    | .error cause => throw (.noDirectory cause)

/-- The path of the data set: the one that was named, else that of the environment, else that of the
settings. -/
def dataPath (o : Options) (s : Settings) : ExceptT Failure m String := do
  match o.data with
  | some path => pure path
  | none =>
    match ← host.env dataVariable with
    | some path => if path.isEmpty then orElse s.dataPath else pure path
    | none => orElse s.dataPath
where
  /-- The path of the settings. -/
  orElse : Option String → ExceptT Failure m String
    | some path => pure path
    | none => throw .noData

/-- The data set at a path. -/
def readCatalog (path : String) : ExceptT Failure m Catalog := do
  match (← host.read path).text with
  | .error cause => throw (.unreadableData path cause)
  | .ok text =>
    match Catalog.parse? text with
    | some c => pure c
    | none => throw (.invalidData path)

/-- The path that stands for the standard input. -/
def inputPath : String := "-"

/-- The text to audit: a file, or the standard input. -/
def readCode (o : Options) : ExceptT Failure m String := do
  match o.input with
  | some path =>
    if Path.same path inputPath then readInput
    else
      match (← host.read path).text with
      | .ok text => pure text
      | .error cause => throw (.unreadable path cause)
  | none => readInput
where
  /-- The text of the standard input. -/
  readInput : ExceptT Failure m String := do
    match (← host.input).text with
    | .ok text => pure text
    | .error cause => throw (.unreadableInput cause)

end Reading

/-! ## What a run prints -/

/-- The tag of a language by a short name for it. -/
def languageTag (lang code : String) : String :=
  match lang with
  | "auto" => Detect.detect code
  | "js" | "jsx" => "javascript"
  | "ts" | "tsx" => "typescript"
  | other => other

/-- What a run found. -/
structure Findings where
  report : Report
  score : Option Score
  accessibility : Option Accessibility.Report

namespace Findings

/-- What is found in a text. -/
def ofCode (o : Options) (checker : Checker) (code : String) : Findings :=
  let report := checker.analyze code (languageTag o.lang code)
  { report
    score := if o.score then some (.ofReport report) else none
    accessibility := if o.a11y then some (Accessibility.check code) else none }

/-- What was found, as it is exchanged. -/
def toJson (f : Findings) : Json :=
  .object (f.report.fields ++ (f.score.map fun s => ("score", s.toJson)).toList ++
    (f.accessibility.map fun a => ("accessibility", a.toJson)).toList)

/-- What was found, as text for a terminal. -/
def listing (f : Findings) (p : Painter) (filter : SeverityFilter) : String :=
  Listing.report p f.report ++ (f.score.map (Listing.score p filter)).getD "" ++
    (f.accessibility.map (Accessibility.listing p)).getD ""

end Findings

/-- The end of a run. -/
structure Outcome where
  status : Nat
  /-- What is printed to the standard output. -/
  out : String := ""
  /-- What is printed to the standard error. -/
  err : String := ""
  deriving DecidableEq, Repr

namespace Outcome

/-- The end of a run that failed. -/
def ofFailure (f : Failure) : Outcome :=
  { status := 1, err := "[" ++ name ++ "] Error: " ++ f.message ++ "\n" }

/-- The end of a run that did not start. -/
def ofStop : Stop → Outcome
  | .help => { status := 0, out := helpText }
  | .version => { status := 0, out := versionText }
  | .error e => { status := 2, err := e.text }

end Outcome

section Running

variable {m : Type → Type} [Monad m] (host : Host m)

/-- Audits a text. -/
def audit (o : Options) : ExceptT Failure m Outcome := do
  let settings ← readSettings host o
  let threshold := o.threshold.getD settings.threshold
  let catalog ← readCatalog host (← dataPath host o settings)
  let code ← readCode host o
  let findings := Findings.ofCode o (.ofCatalog catalog threshold) code
  let out ←
    if o.json || settings.json then pure (findings.toJson.pretty 0 ++ "\n")
    else
      let painter := Painter.ofMode (o.color.getD settings.color) (← host.isTerminal)
      pure (findings.listing painter o.filter)
  pure { status := if o.failOnIssues && findings.report.hasIssues then 2 else 0, out }

/-- Runs the command. -/
def run (arguments : List String) : m Outcome := do
  match Options.ofArguments arguments with
  | .error stop => pure (.ofStop stop)
  | .ok o =>
    match ← (audit host o).run with
    | .ok outcome => pure outcome
    | .error f => pure (.ofFailure f)

end Running

/-! ## Runs in memory -/

/-- A directory in memory with an environment and a standard input. -/
structure Surroundings where
  /-- The path of the directory. -/
  path : String
  root : Entry
  input : ByteArray
  environment : List (String × String)

namespace Surroundings

/-- The content of the file at a path, which may start with the path of the directory. -/
def read (s : Surroundings) (path : String) : Content :=
  match Text.dropLeading s.path.toList path.toList with
  | some [] => s.root.read "."
  | some ('/' :: rest) => s.root.read ("./" ++ String.ofList rest)
  | _ => s.root.read path

/-- The directory as a host. Its output is no terminal. -/
def host (s : Surroundings) : Host Id where
  directory := .ok s.path
  read := s.read
  input := .ok s.input
  env := fun name => s.environment.lookup name
  isTerminal := false

/-- Runs the command in a directory in memory. -/
def run (s : Surroundings) (arguments : List String) : Outcome := Command.run s.host arguments

end Surroundings

end BaselineAudit.Command
