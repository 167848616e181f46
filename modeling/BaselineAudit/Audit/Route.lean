import BaselineAudit.Report.Basic
import BaselineAudit.Text.Blank

/-!
# Routes

Which kind of audit a text takes, by the tag of its language and a look at the text.
-/

namespace BaselineAudit

/-- The kinds of audit. -/
inductive Route where
  | css
  | html
  /-- A document with style sheets or scripts in it. -/
  | mixed
  | script (typed : Bool)
  /-- A script with markup in it. -/
  | component
  /-- A language that nothing is known about. -/
  | unsupported (tag : String)
  deriving DecidableEq, Repr

namespace Route

/-- Does a script look as if it held markup? -/
def hasMarkup (code : String) : Bool := Text.contains code "<" && Text.contains code "/>"

/-- Does a document look as if it held style sheets or scripts? -/
def hasBlocks (code : String) : Bool :=
  Text.contains code "<style" || Text.contains code "<script"

/-- The route of a text. -/
def select (code : String) : (tag : String) → Route
  | "css" => css
  | "html" => if hasBlocks code then mixed else html
  | "javascript" => if hasMarkup code then component else script false
  | "typescript" => if hasMarkup code then component else script true
  | tag => unsupported tag

/-- The name of a route. -/
def name : Route → String
  | css => "css"
  | html => "html"
  | mixed => "mixed"
  | script false => "js"
  | script true => "ts"
  | component => "jsx"
  | unsupported _ => "unsupported"

/-- The route with a name. -/
def ofName? : String → Option Route
  | "css" => some css
  | "html" => some html
  | "mixed" => some mixed
  | "js" => some (script false)
  | "ts" => some (script true)
  | "jsx" => some component
  | _ => none

/-- The language that the reports of a route name. -/
def language : Route → Language
  | css => .css
  | html => .html
  | mixed => .mixed
  | script _ => .js
  | component => .jsx
  | unsupported tag => .other tag

end Route

end BaselineAudit
