import BaselineAudit.Json.Basic
import BaselineAudit.Pattern.Basic
import BaselineAudit.Terminal.Paint

/-!
# Accessibility lint

Four rules for markup, each reported at most once for a text. They look at the text and not at a
parsed document.
-/

namespace BaselineAudit.Accessibility

/-- How bad it is to break a rule. -/
inductive Severity where
  | critical
  | warning
  deriving DecidableEq, Repr

/-- A rule for markup. -/
inductive Rule where
  /-- An image has an `alt` attribute. -/
  | imgAlt
  /-- A button has content. -/
  | buttonText
  /-- A link has a `href` attribute. -/
  | linkHref
  /-- White text does not stand on white. -/
  | contrast
  deriving DecidableEq, Repr

namespace Severity

/-- A severity as it is written. -/
def name : Severity → String
  | critical => "critical"
  | warning => "warning"

/-- The points that a broken rule costs. -/
def penalty : Severity → Nat
  | critical => 20
  | warning => 10

end Severity

/-- A whole opening tag of a name. -/
def openTag (name : String) : Pattern :=
  .all [.text "<", .textAnyCase name, .edge, .star (.set (.except ">")), .text ">"]

/-- The start of an attribute that is given a value. -/
def attributeStart (name : String) : Pattern :=
  .all [.edge, .textAnyCase name, .spaces, .text "="]

/-- A closing tag of a link. -/
def linkEnd : Pattern := .all [.text "</", .textAnyCase "a", .spaces, .text ">"]

/-- A button with nothing but blanks in it. -/
def emptyButton : Pattern :=
  .all [openTag "button", .spaces, .text "</", .textAnyCase "button", .text ">"]

/-- A link without `href` that is closed on its line. -/
def linkWithoutHref (line : List Char) : Bool :=
  ((openTag "a").allMatches line).any fun m =>
    !(attributeStart "href").occurs m.found && linkEnd.occurs m.rest

namespace Rule

/-- The rules in the order in which they are reported. -/
def all : List Rule := [imgAlt, buttonText, linkHref, contrast]

/-- A rule as it is written. -/
def name : Rule → String
  | imgAlt => "img-alt"
  | buttonText => "button-text"
  | linkHref => "link-href"
  | contrast => "contrast"

/-- How bad it is to break a rule. -/
def severity : Rule → Severity
  | imgAlt | buttonText => .critical
  | linkHref | contrast => .warning

/-- What is said about a broken rule. -/
def message : Rule → String
  | imgAlt => "Image elements must have an alt attribute."
  | buttonText => "Buttons should have descriptive text."
  | linkHref => "Links must have an href attribute."
  | contrast => "Text color and background should have sufficient contrast."

/-- Markup breaks a rule. -/
def isBrokenBy (markup : String) : Rule → Bool
  | imgAlt =>
    ((openTag "img").allMatches markup.toList).any fun m => !(attributeStart "alt").occurs m.found
  | buttonText => emptyButton.occurs markup.toList
  | linkHref => (markup.toList.splitOn '\n').any linkWithoutHref
  | contrast =>
    Text.contains markup "color: #fff" && Text.contains markup "background: #fff"

end Rule

/-- A broken rule as it is reported. -/
structure Breach where
  rule : Rule
  message : String
  severity : Severity
  deriving DecidableEq, Repr

/-- The breach of a rule. -/
def Rule.breach (r : Rule) : Breach := ⟨r, r.message, r.severity⟩

/-- The rules that a text breaks, and what is left of 100 points. -/
structure Report where
  breaches : List Breach
  score : Nat
  deriving DecidableEq, Repr

/-- The report with these breaches. -/
def Report.ofBreaches (breaches : List Breach) : Report :=
  ⟨breaches, 100 - (breaches.map (·.severity.penalty)).foldr (· + ·) 0⟩

/-- Checks markup against all rules. -/
def check (markup : String) : Report :=
  .ofBreaches ((Rule.all.filter (·.isBrokenBy markup)).map Rule.breach)

/-- A breach as it is exchanged. -/
def Breach.toJson (b : Breach) : Json :=
  .object [("type", .string b.rule.name), ("message", .string b.message),
    ("severity", .string b.severity.name)]

/-- A report as it is exchanged. -/
def Report.toJson (r : Report) : Json :=
  .object [("issues", .array (r.breaches.map Breach.toJson)), ("score", .natural r.score)]

/-- The mark of a severity in a listing. -/
def severityTag (p : Painter) : Severity → String
  | .critical => p.critical "[critical]"
  | .warning => p.warn "[warning]"

/-- The line of a breach in a listing. -/
def breachLine (p : Painter) (b : Breach) : String :=
  severityTag p b.severity ++ " " ++ p.key b.rule.name ++ " " ++ b.message ++ "\n"

/-- A report as text for a terminal. -/
def listing (p : Painter) (r : Report) : String :=
  p.header "Accessibility" ++ " " ++ p.number r.score.repr ++ "/100\n" ++
    String.join (r.breaches.map (breachLine p))

end BaselineAudit.Accessibility
