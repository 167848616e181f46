import BaselineAudit.Report.Issue

/-!
# Reports

The result of an analysis: its issues, and how many usages were checked. Reports of parts can be
merged into a report of the whole.
-/

namespace BaselineAudit

/-- The language that a report is about. -/
inductive Language where
  | css
  | html
  | js
  | jsx
  /-- Markup with style sheets and scripts in it. -/
  | mixed
  /-- A tag that names no language of this list. -/
  | other (tag : String)
  deriving DecidableEq, Repr, Inhabited

namespace Language

/-- The language that a tag names. -/
def ofTag : String → Language
  | "css" => css
  | "html" => html
  | "js" => js
  | "jsx" => jsx
  | "mixed" => mixed
  | tag => other tag

/-- The tag of a language. -/
def tag : Language → String
  | css => "css"
  | html => "html"
  | js => "js"
  | jsx => "jsx"
  | mixed => "mixed"
  | other tag => tag

/-- Is it a language of the list? -/
def isKnown : Language → Bool
  | other _ => false
  | _ => true

end Language

/-- How many usages were checked, and how many of them are below the threshold. -/
structure Summary where
  checked : Nat := 0
  below : Nat := 0
  deriving DecidableEq, Repr, Inhabited

/-- The result of an analysis. -/
structure Report where
  language : Language
  threshold : Threshold
  issues : List Issue := []
  summary : Summary := {}
  deriving DecidableEq, Repr, Inhabited

namespace Report

/-- The report of a text in which nothing was checked. -/
def empty (language : Language) (threshold : Threshold) : Report := { language, threshold }

/-- The report with these issues, of which there were `checked` usages. -/
def ofIssues (language : Language) (threshold : Threshold) (issues : List Issue) (checked : Nat) :
    Report :=
  ⟨language, threshold, issues, ⟨checked, issues.length⟩⟩

/-- How many usages the parts checked. -/
def totalChecked (parts : List Report) : Nat := (parts.map (·.summary.checked)).foldr (· + ·) 0

/-- One report of several parts: their issues in order, and the sum of their counts. -/
def merge (language : Language) (threshold : Threshold) (parts : List Report) : Report :=
  ofIssues language threshold (parts.flatMap (·.issues)) (totalChecked parts)

/-- What two issues share if one of them repeats the other. -/
def identity (i : Issue) : UsageKind × String × Option Location := (i.kind, i.key, i.location)

/-- The issues whose identity is not in `seen` and that repeat none in front of them. -/
def distinctFrom (seen : List (UsageKind × String × Option Location)) : List Issue → List Issue
  | [] => []
  | i :: rest =>
    if seen.contains (identity i) then distinctFrom seen rest
    else i :: distinctFrom (identity i :: seen) rest

/-- Like `merge`, without the issues that repeat one in front of them. -/
def mergeDistinct (language : Language) (threshold : Threshold) (parts : List Report) : Report :=
  ofIssues language threshold (distinctFrom [] (parts.flatMap (·.issues))) (totalChecked parts)

/-- Is any usage below the threshold? -/
def hasIssues (r : Report) : Bool := !r.issues.isEmpty

/-- The fields of a report as they are exchanged. -/
def fields (r : Report) : List (String × Json) :=
  [("inputLanguage", .string r.language.tag), ("minLevel", .string r.threshold.name),
    ("issues", .array (r.issues.map Issue.toJson)),
    ("summary", .object
      [("totalChecked", .natural r.summary.checked), ("belowMinLevel", .natural r.summary.below)])]

/-- A report as it is exchanged. -/
def toJson (r : Report) : Json := .object r.fields

end Report

end BaselineAudit
