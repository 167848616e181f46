import BaselineAudit.Report.Score
import BaselineAudit.Terminal.Paint

/-!
# Listings

Reports and scores as text for a terminal.
-/

namespace BaselineAudit.Listing

/-- A level in words. -/
def level (p : Painter) : Level → String
  | .unsupported => p.critical "not baseline"
  | .low => p.warn "baseline low"
  | .high => p.ok "baseline high"

/-- The line of an issue: where it is, what it is, and what is known about its support. -/
def issueLine (p : Painter) (i : Issue) : String :=
  let position := (i.location.map Location.text).getD "-"
  let since :=
    match i.lowDate with
    | some date => " " ++ p.dim ("(since " ++ date ++ ")")
    | none => ""
  let unmapped := if i.feature.isNone then " " ++ p.dim "(unmapped)" else ""
  Text.padLeft 8 (p.location position) ++ "  " ++ Text.padRight 14 i.kind.name ++ " " ++ i.label ++
    "  " ++ p.key i.key ++ "  " ++ level p i.level ++ since ++ unmapped

/-- The first line of a report. -/
def title (p : Painter) (r : Report) : String :=
  p.header "Baseline check" ++ " " ++
    p.dim ("(" ++ r.language.tag ++ ", min level " ++ r.threshold.name ++ ")") ++ "\n"

/-- A report: its issues, and how many usages were checked. -/
def report (p : Painter) (r : Report) : String :=
  if r.issues.isEmpty then
    title p r ++
      p.statusOk (r.summary.checked.repr ++ " usages checked, all at or above " ++
        r.threshold.name) ++ "\n"
  else
    title p r ++ String.join (r.issues.map fun i => issueLine p i ++ "\n") ++
      p.number r.summary.checked.repr ++ " usages checked, " ++
      p.number r.summary.below.repr ++ " below " ++ r.threshold.name ++ "\n"

/-- The mark of a severity. -/
def severityTag (p : Painter) : Severity → String
  | .critical => p.critical "[critical]"
  | .moderate => p.warn "[moderate]"

/-- The line of a scored issue. -/
def scoredLine (p : Painter) (s : ScoredIssue) : String :=
  severityTag p s.severity ++ " " ++ Text.trimStart (issueLine p s.issue) ++ "\n"

/-- A score: the issues that the filter shows, the browsers that lack something, and the bullets. -/
def score (p : Painter) (filter : SeverityFilter) (s : Score) : String :=
  p.header "Score" ++ " " ++ p.number s.overall.repr ++ "/100 " ++
    p.dim ("(" ++ s.errors.repr ++ " errors, " ++ s.warnings.repr ++ " warnings)") ++ "\n" ++
    String.join ((s.filtered filter).map (scoredLine p)) ++
    (if s.browsers.isEmpty then ""
      else "Problematic browsers: " ++ ", ".intercalate s.browsers ++ "\n") ++
    String.join (s.bullets.map fun b => "  - " ++ b ++ "\n")

end BaselineAudit.Listing
