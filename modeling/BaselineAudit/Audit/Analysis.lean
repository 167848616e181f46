import BaselineAudit.Audit.Collector
import BaselineAudit.Audit.Route
import BaselineAudit.Component.Styles
import BaselineAudit.Css.Declarations
import BaselineAudit.Detect.Basic
import BaselineAudit.Html.Document
import BaselineAudit.Script.Usages

/-!
# Audits

The report on a text. An audit has no result if the source of statuses breaks down; `analyze` then
gives an empty report, so that it always has one.
-/

namespace BaselineAudit.Checker

/-- The report on a text that could not be read. -/
def nothing (c : Checker) (language : Language) : Report := .empty language c.threshold

/-- The report on a style sheet. -/
def auditCss (c : Checker) (code : String) : Option Report :=
  c.judge .css (Css.Snippet.usages ⟨code, .stylesheet, .whole⟩)

/-- The report on the elements and attributes of a document. -/
def auditHtml (c : Checker) (code : String) : Option Report :=
  match Html.Document.parse? code with
  | none => some (c.nothing .html)
  | some d => c.judge .html d.usages

/-- The style sheet in a block of a document. -/
def styleSnippet (b : Html.Block) : Css.Snippet := ⟨b.text, .stylesheet, .verbatim b.start⟩

/-- What the script in a block of a document uses. One that cannot be read counts as empty. -/
def scriptUsages (b : Html.Block) : List Usage :=
  (Script.usages? .plain (.verbatim b.start) b.text).getD []

/-- The report on a document with its style sheets and scripts: first all of the document itself, then
all style sheets, then all scripts. -/
def auditMixed (c : Checker) (code : String) : Option Report :=
  match Html.Document.parse? code with
  | none => some (c.nothing .mixed)
  | some d => do
    let styles := (d.blocks.filter (·.kind = .style)).map styleSnippet
    let html ← c.judge .html d.usages
    let css ← c.judge .css (styles.flatMap Css.Snippet.usages)
    let js ← c.judge .js ((d.blocks.filter (·.kind = .script)).flatMap scriptUsages)
    pure (.merge .mixed c.threshold [html, css, js])

/-- The report on a script. -/
def auditScript (c : Checker) (code : String) (typed : Bool) : Option Report :=
  match Script.usages? (.ofTyped typed) .whole code with
  | none => some (c.nothing .js)
  | some usages => c.judge .js usages

/-- The report on a script with markup and on the styles in it. -/
def auditComponent (c : Checker) (code : String) : Option Report :=
  match Component.parse? code with
  | none => some (c.nothing .jsx)
  | some component => do
    let script ← c.judge .jsx component.scriptUsages
    let styles ← c.judge .jsx component.styleUsages
    pure (.mergeDistinct .jsx c.threshold [script, styles])

/-- The report on a text, by its route. -/
def run (c : Checker) (code : String) : Route → Option Report
  | .css => c.auditCss code
  | .html => c.auditHtml code
  | .mixed => c.auditMixed code
  | .script typed => c.auditScript code typed
  | .component => c.auditComponent code
  | .unsupported tag => some (c.nothing (.other tag))

/-- The report on a text in the language with a tag. -/
def analyze (c : Checker) (code tag : String) : Report :=
  (c.run code (.select code tag)).getD (c.nothing (.ofTag tag))

/-- The report on a text in the language that it seems to be in. -/
def analyzeDetected (c : Checker) (code : String) : Report := c.analyze code (Detect.detect code)

end BaselineAudit.Checker
