import BaselineAudit.Html.Scanner
import BaselineAudit.Report.Issue
import BaselineAudit.Text.Blank

/-!
# HTML documents

The elements and attributes of a document, and the scripts and style sheets in it.
-/

namespace BaselineAudit.Html

open Parsing

/-- A document that could be read. -/
structure Document where
  chars : List Char
  nodes : List Node

/-- What the text of a block is. -/
inductive BlockKind where
  | style
  | script
  deriving DecidableEq, Repr

/-- The text of a style sheet or script in a document. -/
structure Block where
  kind : BlockKind
  text : String
  /-- Where the text starts in the document. -/
  start : Location
  deriving DecidableEq, Repr

namespace Document

/-- Reads a document. That fails if the text as a whole is an error. -/
def parse? (source : String) : Option Document := do
  let cs := source.toList
  let tree ← language.get.parse cs
  if tree.nodes.any (·.isNamed "ERROR") then none else some ⟨cs, tree.nodes⟩

/-- The start tag of an element. -/
def startTag? (children : List Node) : Option Node :=
  children.find? fun n => n.isNamed "start_tag" || n.isNamed "self_closing_tag"

/-- The text of the first child with a name. -/
def textOf? (d : Document) (name : String) (n : Node) : Option String :=
  (n.namedChildren.find? (·.isNamed name)).map fun c => c.text d.chars

/-- The name of an attribute, in small letters. -/
def attributeName? (d : Document) (n : Node) : Option String :=
  (d.textOf? "attribute_name" n).map (·.map Char.toLower)

/-- What a tag uses: its element, and its attributes. -/
def tagUsages (d : Document) (tag : Node) : List Usage :=
  tag.namedChildren.filterMap fun n =>
    if n.isNamed "tag_name" then some (.ofElement ((n.text d.chars).map Char.toLower))
    else if n.isNamed "attribute" then (d.attributeName? n).map .ofAttribute
    else none

/-- An element, also a script or a style sheet. -/
def isElement (label : Label) : Bool :=
  ["element", "script_element", "style_element"].contains label.name

mutual

/-- What a node uses. -/
def usagesOf (d : Document) : Node → List Usage
  | ⟨label, _, _, _, children⟩ =>
    if !label.named then []
    else
      let own := if isElement label then ((startTag? children).map d.tagUsages).getD [] else []
      own ++ usagesOfAll d children

/-- What nodes use, in order. -/
def usagesOfAll (d : Document) : List Node → List Usage
  | [] => []
  | n :: rest => usagesOf d n ++ usagesOfAll d rest

end

/-- The elements and attributes of a document, in order. -/
def usages (d : Document) : List Usage := usagesOfAll d d.nodes

/-- A quote. -/
def isQuote (c : Char) : Bool := c = '"' || c = '\''

/-- A value without the quotes and blanks around it, in small letters. -/
def plainValue (raw : String) : String :=
  let bare := ((raw.toList.dropWhile isQuote).reverse.dropWhile isQuote).reverse
  (Text.trim (String.ofList bare)).map Char.toLower

/-- The type of a script, if its tag has one with a value. -/
def scriptType? (d : Document) (children : List Node) : Option String := do
  let tag ← startTag? children
  let type ← (tag.namedChildren.filter (·.isNamed "attribute")).find? fun n =>
    d.attributeName? n = some "type"
  let value ← type.namedChildren.find? fun n =>
    n.isNamed "attribute_value" || n.isNamed "quoted_attribute_value"
  pure (plainValue (value.text d.chars))

/-- The type of a script that is code. -/
def isCodeType (type : String) : Bool :=
  type.isEmpty || type = "module" || type = "text/babel" ||
    ["javascript", "ecmascript", "jsx"].any fun ending => ending.toList.isSuffixOf type.toList

/-- The text of a block with its place, unless it is blank. -/
def block? (d : Document) (locate : Nat → Location) (kind : BlockKind) (n : Node) : Option Block :=
  let text := n.text d.chars
  if !n.isNamed "raw_text" || Text.allBlank text then none
  else some ⟨kind, text, locate n.start.bytes⟩

/-- The kind of block that an element holds. -/
def blockKind? (label : Label) : Option BlockKind :=
  if label.name = "style_element" then some .style
  else if label.name = "script_element" then some .script
  else none

mutual

/-- The blocks in a node. -/
def blocksOf (d : Document) (locate : Nat → Location) : Node → List Block
  | ⟨label, _, _, _, children⟩ =>
    if !label.named then []
    else
      match blockKind? label with
      | some kind =>
        if kind = .script && !((d.scriptType? children).map isCodeType).getD true then []
        else children.filterMap (d.block? locate kind)
      | none => blocksOfAll d locate children

/-- The blocks in nodes, in order. -/
def blocksOfAll (d : Document) (locate : Nat → Location) : List Node → List Block
  | [] => []
  | n :: rest => blocksOf d locate n ++ blocksOfAll d locate rest

end

/-- The style sheets and scripts of a document that are not blank, in order. Scripts that hold data
are left out. -/
def blocks (d : Document) : List Block :=
  blocksOfAll d (LineIndex.ofText (String.ofList d.chars)).locate d.nodes

end Document

end BaselineAudit.Html
