/-!
# Open elements

The elements that are open at a place of a document, the innermost one last. `Tag.admits` says which
element ends another one that has no end tag.
-/

namespace BaselineAudit.Html

/-- The name of an element, in capitals. -/
inductive Tag where
  /-- An element of HTML. -/
  | known (name : String)
  /-- Any other element. -/
  | custom (name : String)
  /-- An element whose name was forgotten. -/
  | forgotten
  deriving DecidableEq, Repr

namespace Tag

/-- Elements without content. -/
def voidNames : List String :=
  ["AREA", "BASE", "BASEFONT", "BGSOUND", "BR", "COL", "COMMAND", "EMBED", "FRAME", "HR", "IMAGE",
    "IMG", "INPUT", "ISINDEX", "KEYGEN", "LINK", "MENUITEM", "META", "NEXTID", "PARAM", "SOURCE",
    "TRACK", "WBR"]

/-- Elements with content. -/
def contentNames : List String :=
  ["A", "ABBR", "ADDRESS", "ARTICLE", "ASIDE", "AUDIO", "B", "BDI", "BDO", "BLOCKQUOTE", "BODY",
    "BUTTON", "CANVAS", "CAPTION", "CITE", "CODE", "COLGROUP", "DATA", "DATALIST", "DD", "DEL",
    "DETAILS", "DFN", "DIALOG", "DIV", "DL", "DT", "EM", "FIELDSET", "FIGCAPTION", "FIGURE",
    "FOOTER", "FORM", "H1", "H2", "H3", "H4", "H5", "H6", "HEAD", "HEADER", "HGROUP", "HTML", "I",
    "IFRAME", "INS", "KBD", "LABEL", "LEGEND", "LI", "MAIN", "MAP", "MARK", "MATH", "MENU", "METER",
    "NAV", "NOSCRIPT", "OBJECT", "OL", "OPTGROUP", "OPTION", "OUTPUT", "P", "PICTURE", "PRE",
    "PROGRESS", "Q", "RB", "RP", "RT", "RTC", "RUBY", "S", "SAMP", "SCRIPT", "SECTION", "SELECT",
    "SLOT", "SMALL", "SPAN", "STRONG", "STYLE", "SUB", "SUMMARY", "SUP", "SVG", "TABLE", "TBODY",
    "TD", "TEMPLATE", "TEXTAREA", "TFOOT", "TH", "THEAD", "TIME", "TITLE", "TR", "U", "UL", "VAR",
    "VIDEO"]

/-- The tag of a name in capitals. -/
def ofName (name : String) : Tag :=
  if voidNames.contains name || contentNames.contains name then known name else custom name

/-- An element without content. -/
def isVoid : Tag → Bool
  | known name => voidNames.contains name
  | _ => false

/-- One of some elements of HTML. -/
def isOneOf (names : List String) : Tag → Bool
  | known name => names.contains name
  | _ => false

/-- The same element of HTML, or both none. -/
def isAlike : Tag → Tag → Bool
  | known a, known b => a == b
  | custom _, custom _ => true
  | forgotten, forgotten => true
  | _, _ => false

/-- Elements that end a paragraph. -/
def endsParagraph : List String :=
  ["ADDRESS", "ARTICLE", "ASIDE", "BLOCKQUOTE", "DETAILS", "DIV", "DL", "FIELDSET", "FIGCAPTION",
    "FIGURE", "FOOTER", "FORM", "H1", "H2", "H3", "H4", "H5", "H6", "HEADER", "HR", "MAIN", "NAV",
    "OL", "P", "PRE", "SECTION"]

/-- An element may stand in another one, so that it does not end it. -/
def admits : Tag → Tag → Bool
  | known parent, child =>
    match parent with
    | "LI" => !child.isOneOf ["LI"]
    | "DT" | "DD" => !child.isOneOf ["DT", "DD"]
    | "P" => !child.isOneOf endsParagraph
    | "COLGROUP" => child.isOneOf ["COL"]
    | "RB" | "RT" | "RP" => !child.isOneOf ["RB", "RT", "RP"]
    | "OPTGROUP" => !child.isOneOf ["OPTGROUP"]
    | "TR" => !child.isOneOf ["TR"]
    | "TD" | "TH" => !child.isOneOf ["TD", "TH", "TR"]
    | _ => true
  | _, _ => true

end Tag

/-- What is remembered of the open elements: how many there are, and the outer ones up to a limit. -/
structure OpenTags where
  total : Nat
  kept : List Tag
  deriving DecidableEq, Repr

namespace OpenTags

/-- The space for remembered elements. -/
def capacity : Nat := 1024

/-- The space that the numbers of elements take. -/
def headerSize : Nat := 4

/-- The length of the longest name that is remembered. -/
def longestName : Nat := 255

/-- The elements that fit into the space that is left. A known element takes one unit, another one two
and its name. -/
def fitting : (used : Nat) → List Tag → List Tag
  | _, [] => []
  | used, .custom name :: rest =>
    let name := String.ofList (name.toList.take longestName)
    let used := used + 2 + name.length
    if capacity ≤ used then [] else .custom name :: fitting used rest
  | used, t :: rest => if capacity ≤ used + 1 then [] else t :: fitting (used + 1) rest

/-- What is remembered of open elements. -/
def ofTags (tags : List Tag) : OpenTags := ⟨tags.length, fitting headerSize tags⟩

/-- The open elements. Those that were not remembered have no name. -/
def tags (o : OpenTags) : List Tag := o.kept ++ List.replicate (o.total - o.kept.length) .forgotten

end OpenTags

end BaselineAudit.Html
