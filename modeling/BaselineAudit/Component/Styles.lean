import BaselineAudit.Component.Property
import BaselineAudit.Component.Template
import BaselineAudit.Component.Value
import BaselineAudit.Css.Declarations
import BaselineAudit.Script.Usages

/-!
# Styles in components

Scripts with markup hold styles in templates with certain tags, in the attributes `style` and `css`,
and in `style` elements. What stands in one of these is style text and counts as no part of the
script.
-/

namespace BaselineAudit

open Script Text

/-- A script with markup. -/
structure Component where
  source : String
  tree : Tree

namespace Component

/-- The script with markup that a text shows. -/
def parse? (source : String) : Option Component := do
  pure ⟨source, ← Script.parse? .component source⟩

/-- What the styles of a component are read with. -/
structure Context where
  chars : List Char
  lines : LineIndex
  bindings : Bindings

/-- What the styles of a component are read with. -/
def context (c : Component) : Context := ⟨c.source.toList, .ofText c.source, .ofScript c.tree⟩

/-! ## Style objects -/

/-- A text with a blank in each end of a comment that stands in it. -/
def withoutEnds : List Char → List Char
  | '*' :: '/' :: cs => '*' :: ' ' :: '/' :: withoutEnds cs
  | c :: cs => c :: withoutEnds cs
  | [] => []

/-- A comment with a text in it, which cannot end the comment. -/
def comment (text : String) : String :=
  "/* " ++ String.ofList (withoutEnds text.toList) ++ " */"

/-- The line for a property with a name and a value. -/
def styleLine (b : Bindings) (name : String) (value : Tree) : String :=
  match styleValue? b value with
  | some v => name ++ ": " ++ singleLine v ++ ";"
  | none => comment name

/-- The line for an item of a style object. What is not known stands in a comment, so that each item
has a line. -/
def itemLine (b : Bindings) : Tree → String
  | .node (.property (some key) _) _ parts =>
    match parts.getLast? with
    | some value => styleLine b (propertyName key) value
    | none => comment (propertyName key)
  | .node (.property none _) _ _ => comment "computed key"
  | _ => comment "spread"

/-! ## Passages -/

/-- Text that is read off a component, and where it comes from. -/
structure Passage where
  text : String
  origin : Origin
  deriving DecidableEq, Repr

namespace Passage

/-- The passage as styles, unless it is blank. -/
def snippet? (p : Passage) (form : Css.Form) : Option Css.Snippet :=
  if allBlank p.text then none else some ⟨p.text, form, p.origin⟩

/-- A text that comes from one place as a whole. -/
def gathered (text : String) (place : Location) : Passage :=
  ⟨text, .lines (List.replicate (max (lineCount text) 1) place)⟩

end Passage

namespace Context

variable (x : Context)

/-- The location of an offset. -/
def locate (offset : Nat) : Location := x.lines.locate offset

/-- The text of a string or template as it stands in the source, or else the text that an expression
stands for. -/
def passage? (t : Tree) : Option Passage :=
  match t.shape with
  | .string value => some ⟨value, .verbatim (x.locate (t.span.start + 1))⟩
  | .template _ => do
    pure ⟨← templateStyles? x.chars t, .verbatim (x.locate (t.span.start + 1))⟩
  | _ => do pure (.gathered (← text? x.bindings t) (x.locate t.span.start))

/-- The lines for the items of a style object. -/
def objectPassage (items : List Tree) : Passage :=
  ⟨"\n".intercalate (items.map (itemLine x.bindings)),
    .lines (items.map fun t => x.locate t.span.start)⟩

/-- The style object that an expression stands for. -/
def objectPassage? (t : Tree) : Option Passage := do
  pure (x.objectPassage (← object? x.bindings t))

/-- The styles of a `css` attribute. A template with a tag counts on its own. -/
def cssPassage? (t : Tree) : Option Passage :=
  match t.shape with
  | .tagged => none
  | .string _ | .template _ => x.passage? t
  | _ => x.objectPassage? t

/-! ## Style elements -/

/-- The value of the property `__html` of an object, if it has one. -/
def markupValue? : Tree → Option Tree
  | .node (.object _) _ items =>
    items.findSome? fun
      | .node (.property (some key) _) _ parts => if key = "__html" then parts.getLast? else none
      | _ => none
  | _ => none

/-- The markup that an attribute sets as the content of its element. -/
def innerMarkup? : Tree → Option Tree
  | .node (.attr (some name)) _ [.node .container _ [e]] =>
    if name = "dangerouslySetInnerHTML" then markupValue? e else none
  | _ => none

/-- The text of a child of a style element. -/
def childPassage? : Tree → Option Passage
  | .node (.text value) span _ =>
    if allBlank value then none else some ⟨value, .verbatim (x.locate span.start)⟩
  | .node .container _ [e] => x.passage? e
  | _ => none

/-- The text of a style element, which stands at `place`. -/
def elementPassage? (place : Location) (children : List Tree) : Option Passage :=
  match children.findSome? innerMarkup? with
  | some e => x.passage? e
  | none =>
    match children.filterMap x.childPassage? with
    | [] => none
    | [p] => some p
    | parts => some (.gathered ("\n".intercalate (parts.map (·.text))) place)

end Context

/-! ## Places of styles -/

/-- A tag in front of a template with styles. -/
def isStyledTag : Tree → Bool
  | .node (.reference name) _ _ => name = "css" || name = "createGlobalStyle"
  | .node (.member _) _ [.node (.reference object) _ _] => object = "styled"
  | .node .call _ (.node (.reference callee) _ _ :: _) => callee = "styled"
  | .node .call _ (.node (.member property) _ [tag] :: _) =>
    (property = "attrs" || property = "withConfig") && isStyledTag tag
  | _ => false

/-- A part of a component that holds styles. -/
structure StylePlace where
  span : Span
  /-- The styles, if they are known and not blank. -/
  snippet : Option Css.Snippet
  deriving DecidableEq, Repr

/-- The styles of an attribute, by its name and value. -/
def attributePassage? (x : Context) (name : String) (value : List Tree) : Option Passage :=
  match value with
  | [.node .container _ [e]] => if name = "style" then x.objectPassage? e else x.cssPassage? e
  | [.node (.string text) span children] =>
    if name = "css" then x.passage? (.node (.string text) span children) else none
  | _ => none

/-- The styles that a node holds, if it is a place for styles. -/
def stylePlace? (x : Context) : Tree → Option StylePlace
  | .node .tagged span (tag :: rest) =>
    if isStyledTag tag then
      some ⟨span, (rest.getLast?.bind x.passage?).bind (·.snippet? .declarations)⟩
    else none
  | .node (.element (some name)) span children =>
    if name = "style" then
      some ⟨span, (x.elementPassage? (x.locate span.start) children).bind (·.snippet? .stylesheet)⟩
    else none
  | .node (.attr (some name)) span value =>
    if name = "style" || name = "css" then
      some ⟨span, (attributePassage? x name value).bind (·.snippet? .declarations)⟩
    else none
  | _ => none

/-- The places for styles in a component, in order. -/
def stylePlaces (c : Component) : List StylePlace :=
  let x := c.context
  c.tree.nodes.filterMap (stylePlace? x)

/-- What the styles of a component use. -/
def styleUsages (c : Component) : List Usage :=
  (c.stylePlaces.filterMap (·.snippet)).flatMap Css.Snippet.usages

/-- What a component uses outside of its styles. -/
def scriptUsages (c : Component) : List Usage :=
  Script.usagesOf (LineIndex.ofText c.source).locate (c.stylePlaces.map (·.span)) c.tree

end Component

end BaselineAudit
