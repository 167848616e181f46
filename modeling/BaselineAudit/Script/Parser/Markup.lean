import BaselineAudit.Script.Parser.Type

/-!
# Markup in scripts

Elements and fragments with attributes and content. A `style` attribute or element is still code here;
what style text it holds is found out later.
-/

namespace BaselineAudit.Script.Parser

/-- A name, which may have dashes in it. -/
def markupWord : P String := do
  let s ← get
  if s.token.isWord then
    put (Lexer.markupName s.token s.here s.rest)
    let t ← peek
    advance
    pure t.text
  else fail

/-- Goes on behind a token; what follows is content if `inside`. -/
def expectMarkup (text : String) (inside : Bool) : P Unit := do
  if ← isAt text then
    if inside then bumpToContent else bump
  else fail

/-- The names behind the dots of a name. -/
def markupMembersFrom : (fuel : Nat) → P String
  | 0 => fail
  | n + 1 => do
    if ← eat "." then
      let word ← markupWord
      flawIf (word.contains '-')
      pure ("." ++ word ++ (← markupMembersFrom n))
    else pure ""

/-- The name of an element. -/
structure ElementName where
  text : String
  /-- It is a single name. -/
  isSingle : Bool
  node : Tree

/-- Does the first word of a name stand for a value? Small letters and dashes are left to the names of
markup, unless a member follows. -/
def namesValue (word : String) (isSingle : Bool) : Bool :=
  let cs := word.toList
  word != "this" && (!isSingle || !(cs.head?.any Char.isLower || cs.contains '-'))

/-- The name of an element. -/
def elementName : P ElementName := do
  let start ← startHere
  let word ← markupWord
  let first ← finish (.reference word) start []
  if ← eat ":" then
    let text := word ++ ":" ++ (← markupWord)
    pure ⟨text, false, ← finish .elementName start []⟩
  else
    let members ← markupMembersFrom (← fuel)
    flawIf (!members.isEmpty && word.contains '-')
    let value := if namesValue word members.isEmpty then [first] else []
    pure ⟨word ++ members, members.isEmpty, ← finish .elementName start value⟩

/-- An expression in braces. It has no commas. -/
def embedded (d : Descent) : P Tree := do
  let e ← within (fun c => { hasAwait := c.hasAwait }) (d .expression)
  flawIf (e.shape == .sequence)
  pure e

/-- An expression in braces as the value of an attribute or as content. -/
def container (d : Descent) (inside : Bool) : P Tree := do
  let start ← startHere
  expect "\x7b"
  let isEmpty ← isAt "\x7d"
  flawIf (isEmpty && !inside)
  let inner ← if isEmpty then pure [] else pure [← embedded d]
  expectMarkup "\x7d" inside
  finish .container start inner

/-- The value of an attribute, if it has one. -/
def attributeValue (d : Descent) : P (List Tree) := do
  if ← isAt "=" then
    advanceBy Lexer.attributeValue
    let t ← peek
    if t.kind == .string then
      bump
      pure [← finish (.string t.text) t.start []]
    else if t.is "\x7b" then pure [← container d false]
    else if t.is "<" then pure [← d (.markup false)]
    else fail
  else pure []

/-- An attribute. -/
def markupAttribute (d : Descent) : P Tree := do
  let start ← startHere
  if ← eat "\x7b" then
    expect "..."
    let e ← embedded d
    expect "\x7d"
    finish .spreadAttr start [e]
  else
    let word ← markupWord
    if ← eat ":" then
      let _ ← markupWord
      let value ← attributeValue d
      finish (.attr none) start value
    else
      let value ← attributeValue d
      finish (.attr (some word)) start value

/-- A piece of content. -/
def markupChild (d : Descent) : P Tree := do
  let t ← peek
  if t.kind == .text then
    advanceBy Lexer.content
    finish (.text t.text) t.start []
  else if t.is "<" then d (.markup true)
  else if t.is "\x7b" then
    let isSpread := (← peekNext).is "..."
    if isSpread then
      bump
      bump
      let e ← embedded d
      expectMarkup "\x7d" true
      finish .spread t.start [e]
    else container d true
  else fail

/-- The content of an element up to its end tag. -/
def markupContent (d : Descent) : P (List Tree) :=
  many (do
    if ← isAt "<" then pure !((← peekNext).is "/") else pure true) do
    pure [← markupChild d]

/-- An element or fragment. -/
def markup (d : Descent) (inside : Bool) : P Tree := do
  let start ← startHere
  expect "<"
  if ← isAt ">" then
    expectMarkup ">" true
    let content ← markupContent d
    expect "<"
    expect "/"
    expectMarkup ">" inside
    finish .fragment start content
  else
    let name ← elementName
    let types ← optionalTypeArguments d
    let more : P Bool := do pure !((← atEnd) || (← atOneOf ["<", ">", "/"]))
    let attributes ← many more do pure [← markupAttribute d]
    let shape := Shape.element (if name.isSingle then some name.text else none)
    let opening := name.node :: types ++ attributes
    if ← eat "/" then
      expectMarkup ">" inside
      finish shape start opening
    else
      expectMarkup ">" true
      let content ← markupContent d
      expect "<"
      expect "/"
      let closing ← elementName
      flawIf (closing.text != name.text)
      expectMarkup ">" inside
      finish shape start (opening ++ content ++ [closing.node])

end BaselineAudit.Script.Parser
