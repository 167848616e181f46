import BaselineAudit.Css.Scanner
import BaselineAudit.Report.Issue

/-!
# Declarations of style sheets

The declarations of a text that could be read, with the identifiers in their values. A declaration
with an error in it is left out; the text around it still counts, errors or not.
-/

namespace BaselineAudit.Css

open Parsing

/-- A property with the identifiers that its value mentions, in small letters. -/
structure Declaration where
  property : String
  values : List String
  location : Location
  deriving DecidableEq, Repr

namespace Declaration

/-- What a declaration uses: the property, then each of its values. -/
def usages (d : Declaration) : List Usage :=
  .ofProperty d.property d.location ::
    d.values.map fun v => .ofPropertyValue d.property v d.location

end Declaration

/-- A character of an identifier behind its start. -/
def isNameRest (c : Char) : Bool := c.isAlphanum || c = '-' || c = '_'

/-- A character with which an identifier starts, behind a dash if there is one. -/
def isNameStart (c : Char) : Bool := c.isAlpha || c = '_'

/-- An identifier that is no reference to a custom property. -/
def isIdentifier : List Char → Bool
  | '-' :: c :: rest => isNameStart c && rest.all isNameRest
  | c :: rest => isNameStart c && rest.all isNameRest
  | [] => false

/-- Parts of a declaration in which no value is looked for. -/
def besideValue : List String := ["property_name", "important", "comment"]

mutual

/-- The identifiers in a part of a declaration, in order. -/
def identifiersOf (cs : List Char) : Node → List String
  | ⟨label, start, size, _, children⟩ =>
    if !label.named || besideValue.contains label.name then []
    else if label.name == "plain_value" then
      let text := (cs.drop start.chars).take size.chars
      if isIdentifier text then [String.ofList (text.map Char.toLower)] else []
    else identifiersOfAll cs children

/-- The identifiers in parts of a declaration. -/
def identifiersOfAll (cs : List Char) : List Node → List String
  | [] => []
  | n :: rest => identifiersOf cs n ++ identifiersOfAll cs rest

end

/-- The declaration that a node shows. -/
def declaration? (cs : List Char) (locate : Nat → Location) (n : Node) : Option Declaration :=
  if n.hasError then none
  else do
    let name ← n.namedChildren.find? (·.isNamed "property_name")
    pure
      { property := (name.text cs).map Char.toLower
        values := identifiersOfAll cs n.children
        location := locate n.start.bytes }

mutual

/-- The declarations in a node. -/
def declarationsOf (cs : List Char) (locate : Nat → Location) : Node → List Declaration
  | ⟨label, start, size, hasError, children⟩ =>
    if !label.named then []
    else if label.name == "declaration" then
      (declaration? cs locate ⟨label, start, size, hasError, children⟩).toList
    else declarationsOfAll cs locate children

/-- The declarations in nodes, in order. -/
def declarationsOfAll (cs : List Char) (locate : Nat → Location) : List Node → List Declaration
  | [] => []
  | n :: rest => declarationsOf cs locate n ++ declarationsOfAll cs locate rest

end

/-- What the text of a snippet is. -/
inductive Form where
  /-- Rules, at-rules and declarations in blocks. -/
  | stylesheet
  /-- Declarations without a block around them. -/
  | declarations
  deriving DecidableEq, Repr

/-- The text in front of bare declarations that makes a rule of them. -/
def Form.opening : Form → String
  | stylesheet => ""
  | declarations => "*\x7b"

/-- The text behind bare declarations that makes a rule of them. -/
def Form.closing : Form → String
  | stylesheet => ""
  | declarations => "\n\x7d"

/-- A piece of style text in a document. -/
structure Snippet where
  text : String
  form : Form
  origin : Origin
  deriving DecidableEq, Repr

namespace Snippet

/-- The snippet as a style sheet. -/
def source (s : Snippet) : String := s.form.opening ++ s.text ++ s.form.closing

/-- The location in the document of an offset into the source of a snippet. What stands in front of
the text on the first line does not count. -/
def locate (s : Snippet) (index : LineIndex) (offset : Nat) : Location :=
  let l := index.locate offset
  let column := if l.line = 1 then l.column - 1 - s.form.opening.utf8ByteSize + 1 else l.column
  s.origin.map ⟨l.line, column⟩

/-- The declarations of a snippet. There are none if there is no tree. -/
def declarations (s : Snippet) : List Declaration :=
  let cs := s.source.toList
  match language.get.parse cs with
  | none => []
  | some tree => declarationsOfAll cs (s.locate (.ofText s.source)) tree.nodes

/-- What a snippet uses. -/
def usages (s : Snippet) : List Usage := s.declarations.flatMap Declaration.usages

end Snippet

end BaselineAudit.Css
