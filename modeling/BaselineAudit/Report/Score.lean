import BaselineAudit.Report.Basic

/-!
# Scores

Issues have two severities. The score of a report starts at 100 and loses points for each issue
according to its severity.
-/

namespace BaselineAudit

/-- How bad an issue is. -/
inductive Severity where
  /-- The feature is not supported by all core browsers. -/
  | critical
  /-- The feature is supported, but not as widely as asked for. -/
  | moderate
  deriving DecidableEq, Repr

namespace Severity

/-- The severity of an issue. -/
def of (i : Issue) : Severity := if i.level = .unsupported then critical else moderate

/-- The weight of a severity; heavier issues come first. -/
def weight : Severity → Nat
  | critical => 2
  | moderate => 1

/-- The points that an issue costs. -/
def penalty : Severity → Nat
  | critical => 3
  | moderate => 2

/-- A severity as it is written. -/
def name : Severity → String
  | critical => "critical"
  | moderate => "moderate"

end Severity

/-- Which severities are shown. -/
inductive SeverityFilter where
  | all
  /-- Critical issues only. -/
  | errors
  /-- Moderate issues only. -/
  | warnings
  deriving DecidableEq, Repr, Inhabited

namespace SeverityFilter

/-- Are issues of this severity shown? -/
def accepts : SeverityFilter → Severity → Bool
  | all, _ => true
  | errors, s => s == .critical
  | warnings, s => s == .moderate

/-- A filter as it is written. -/
def name : SeverityFilter → String
  | all => "all"
  | errors => "errors"
  | warnings => "warnings"

/-- What is said about a word that names no filter. -/
def unknownMessage (word : String) : String :=
  "invalid filter '" ++ word ++ "': expected all, errors or warnings"

/-- Reads a filter; blanks around it and the case of ASCII letters do not matter. -/
def parse (raw : String) : Except String SeverityFilter :=
  match Text.normalWord raw with
  | "all" => .ok all
  | "errors" => .ok errors
  | "warnings" => .ok warnings
  | word => .error (unknownMessage word)

end SeverityFilter

/-- An issue with its severity. -/
structure ScoredIssue where
  issue : Issue
  severity : Severity
  deriving DecidableEq, Repr

namespace ScoredIssue

/-- An issue with the severity it has. -/
def of (i : Issue) : ScoredIssue := ⟨i, .of i⟩

/-- The place of an issue among those of its severity. An issue without a location comes first. -/
def place (s : ScoredIssue) : Nat × Nat :=
  match s.issue.location with
  | some l => (l.line, l.column)
  | none => (0, 0)

/-- Heavier issues come first, then those that stand earlier. -/
def precedes (a b : ScoredIssue) : Bool :=
  b.severity.weight < a.severity.weight ||
    (a.severity.weight == b.severity.weight &&
      (a.place.1 < b.place.1 || (a.place.1 == b.place.1 && a.place.2 ≤ b.place.2)))

/-- A scored issue as it is exchanged. -/
def toJson (s : ScoredIssue) : Json :=
  .object (s.issue.fields ++
    [("severity", .string s.severity.name), ("score", .natural s.severity.weight)])

end ScoredIssue

/-- The score of a report. -/
structure Score where
  /-- The issues, most severe first. -/
  issues : List ScoredIssue
  errors : Nat
  warnings : Nat
  /-- From 0 to 100. -/
  overall : Nat
  /-- The core browsers that lack something, in the order in which they come up. -/
  browsers : List String
  /-- A line for each of the first few keys. -/
  bullets : List String
  deriving DecidableEq, Repr

namespace Score

/-- The browsers that a score speaks of. -/
def coreBrowsers : List String := ["chrome", "firefox", "safari"]

/-- The greatest number of bullets. -/
def maxBullets : Nat := 4

/-- Does a browser support what an issue is about? Its mobile edition counts for `safari`. -/
def supports (browser : String) (i : Issue) : Bool :=
  match i.support with
  | none => false
  | some t =>
    (Json.find? browser t).isSome || (browser == "safari" && (Json.find? "safari_ios" t).isSome)

/-- Adds the browsers that lack what an issue is about and are not in the list yet. -/
def addLacking (found : List String) (s : ScoredIssue) : List String :=
  found ++ coreBrowsers.filter fun b => !found.contains b && !supports b s.issue

/-- The core browsers that lack something, in the order in which they come up. -/
def lackingBrowsers (issues : List ScoredIssue) : List String := issues.foldl addLacking []

/-- The first issue of each key that is not in `seen`. -/
def firstOfKeys (seen : List String) : List ScoredIssue → List ScoredIssue
  | [] => []
  | s :: rest =>
    if seen.contains s.issue.key then firstOfKeys seen rest
    else s :: firstOfKeys (s.issue.key :: seen) rest

/-- The bullet of an issue: what is used, and its key. -/
def bullet (s : ScoredIssue) : String := s.issue.label ++ " — " ++ s.issue.key

/-- The points that a list of issues costs. -/
def penalty (issues : List ScoredIssue) : Nat :=
  (issues.map (·.severity.penalty)).foldr (· + ·) 0

/-- The score of a report. Issues that compare equal keep the order of the report. -/
def ofReport (r : Report) : Score :=
  let issues := (r.issues.map ScoredIssue.of).mergeSort ScoredIssue.precedes
  { issues
    errors := issues.countP (·.severity == .critical)
    warnings := issues.countP (·.severity == .moderate)
    overall := 100 - penalty issues
    browsers := lackingBrowsers issues
    bullets := ((firstOfKeys [] issues).take maxBullets).map bullet }

/-- The issues that a filter shows. -/
def filtered (s : Score) (f : SeverityFilter) : List ScoredIssue :=
  s.issues.filter fun i => f.accepts i.severity

/-- A score as it is exchanged. -/
def toJson (s : Score) : Json :=
  .object
    [("issues", .array (s.issues.map ScoredIssue.toJson)), ("errors", .natural s.errors),
      ("warnings", .natural s.warnings), ("overall", .natural s.overall),
      ("problematicBrowsers", .array (s.browsers.map .string)),
      ("bullets", .array (s.bullets.map .string))]

end Score

end BaselineAudit
