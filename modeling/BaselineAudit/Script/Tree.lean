/-!
# Trees of scripts

A script is a tree of nodes. A node has a shape, the part of the text that it covers, and children in
the order in which they stand in the text. Types are nodes too, since there are expressions in some of
them.
-/

namespace BaselineAudit.Script

/-- A part of a text, in bytes. -/
structure Span where
  start : Nat
  stop : Nat
  deriving DecidableEq, Repr, Inhabited

/-- One part lies within another. -/
def Span.within (inner outer : Span) : Bool := outer.start ≤ inner.start && inner.stop ≤ outer.stop

/-- The text of a template between two expressions. -/
structure Piece where
  /-- The text with its escapes resolved. There is none if an escape has no meaning. -/
  cooked : Option String
  raw : String
  deriving DecidableEq, Repr

/-- The text of a piece, as it is written if it has an escape without meaning. -/
def Piece.text (p : Piece) : String := p.cooked.getD p.raw

/-- What a node of a script is. -/
inductive Shape where
  /-- A name that stands for a value, or in a type for another type. -/
  | reference (name : String)
  /-- `object.property`, with the object as its child. -/
  | member (property : String)
  /-- `object[index]`. -/
  | index
  /-- `object.#name`. -/
  | privateMember
  /-- An expression with `?.` in it. -/
  | chain
  /-- A call; the first child is what is called. -/
  | call
  /-- A dynamic import. -/
  | importCall
  | construct
  | string (value : String)
  /-- A number as it is written. -/
  | number (literal : String)
  /-- An integer of any size as it is written. -/
  | bigint (literal : String)
  | null
  | regex (literal : String)
  /-- A template, with its expressions as children. -/
  | template (pieces : List Piece)
  /-- A template with a tag in front. The tag is the first child, and the template is the last one. -/
  | tagged
  | sum
  | logical (operator : String)
  | unary
  | waiting
  | assignment (operator : String)
  | sequence
  | parens
  /-- An expression that is said to have a type, which is the second child. -/
  | cast
  /-- The same with the type in front of the expression. -/
  | assertion
  | nonNull
  /-- A generic value with its type arguments behind it. -/
  | instantiation
  | object (trailingComma : Bool)
  /-- A property, with key and value as children. Its name is known unless it is computed. -/
  | property (name : Option String) (shorthand : Bool)
  | spread
  | array (trailingComma : Bool)
  | hole
  /-- A check for a private name. -/
  | privateIn
  /-- A function; its last child is its body, if it has one. -/
  | function
  /-- An arrow function; its last child is its body. -/
  | arrow
  /-- The statements of a function. -/
  | body
  | classDef
  /-- A name that is declared. -/
  | binding (name : String)
  /-- A pattern of names that are declared. -/
  | pattern
  /-- A declaration of variables. -/
  | variableList (isConst : Bool)
  /-- A variable; its first child is the name or pattern, and its last one is the value, if it has
  one. -/
  | declarator (hasValue : Bool)
  | exportNamed
  /-- A name that is exported. Its child is the name, if it stands for a value of the script. -/
  | exportSpecifier
  | exportDefault
  | statement
  | block
  /-- An element in markup. Its children are its names, its attributes and its content. -/
  | element (name : Option String)
  /-- The name of an element. Its child is the name that stands for a value, if there is one. -/
  | elementName
  /-- An attribute in markup. -/
  | attr (name : Option String)
  | spreadAttr
  /-- Text in markup. -/
  | text (value : String)
  /-- An expression in markup, unless it is empty. -/
  | container
  | fragment
  /-- A type, with what it is made of as children. -/
  | type
  | interface
  /-- A name for a type. -/
  | typeAlias
  /-- A type that a class or an interface builds on. -/
  | implemented
  | script
  | other
  deriving DecidableEq, Repr, Inhabited

/-- A node of a script. -/
inductive Tree where
  | node (shape : Shape) (span : Span) (children : List Tree)
  deriving Repr, Inhabited

namespace Tree

def shape : Tree → Shape
  | node shape _ _ => shape

def span : Tree → Span
  | node _ span _ => span

def children : Tree → List Tree
  | node _ _ children => children

/-- A node without children. -/
def leaf (shape : Shape) (span : Span) : Tree := node shape span []

/-- The name of a reference. -/
def reference? : Tree → Option String
  | node (.reference name) _ _ => some name
  | _ => none

mutual

/-- The nodes of a tree, each in front of its children. -/
def nodes : Tree → List Tree
  | node shape span children => node shape span children :: nodesOfAll children

/-- The nodes of trees. -/
def nodesOfAll : List Tree → List Tree
  | [] => []
  | t :: rest => nodes t ++ nodesOfAll rest

end

end Tree

end BaselineAudit.Script
