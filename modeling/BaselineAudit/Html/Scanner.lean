import BaselineAudit.Html.Grammar
import BaselineAudit.Html.Tag

/-!
# Scanning tags

The scanner finds the names of tags, the text of scripts and style sheets, comments, and the places
where an element ends without an end tag.
-/

namespace BaselineAudit.Html

open Parsing

/-- The tokens that the scanner finds. -/
inductive TagToken where
  | startName
  | scriptName
  | styleName
  | endName
  | wrongEndName
  | selfClosing
  | implicitEnd
  | rawText
  | comment
  deriving DecidableEq, Repr

/-- The number of a token among the external ones. -/
def TagToken.index : TagToken → Nat
  | startName => 0
  | scriptName => 1
  | styleName => 2
  | endName => 3
  | wrongEndName => 4
  | selfClosing => 5
  | implicitEnd => 6
  | rawText => 7
  | comment => 8

/-- An ASCII blank. -/
def isBlank (c : Char) : Bool := blanks.contains c

/-- A character of a tag's name. -/
def isNameChar (c : Char) : Bool := c.isAlphanum || c = '-' || c = ':'

/-- The name at a place, in capitals, and the place behind it. -/
def readName (p : Place) : String × Place :=
  (String.ofList ((p.rest.takeWhile isNameChar).map Char.toUpper), p.skipWhile isNameChar)

/-- The end of the text of an element, in front of its end tag. `wanted` is what the next characters
have to be to complete the end tag `closing`. The end of the text is `stop` if they are. -/
def rawEnd (closing : List Char) : (wanted : List Char) → (stop : Place) → (passed : Extent) →
    List Char → Place
  | _, stop, _, [] => stop
  | [], stop, _, _ => stop
  | w :: wanted, stop, passed, c :: cs =>
    if c = '\x00' then stop
    else
      let passed := passed + .ofChar c
      if c.toUpper = w then rawEnd closing wanted stop passed cs
      else rawEnd closing closing ⟨passed, cs⟩ passed cs

/-- The place behind a comment whose start was read. `dashes` counts the dashes right in front. -/
def commentEnd : (dashes : Nat) → (passed : Extent) → List Char → Option Place
  | _, _, [] => none
  | dashes, passed, c :: cs =>
    let passed := passed + .ofChar c
    if c = '\x00' then none
    else if c = '-' then commentEnd (dashes + 1) passed cs
    else if c = '>' && 2 ≤ dashes then some ⟨passed, cs⟩
    else commentEnd 0 passed cs

/-- The open elements without the innermost one, if an element ends without an end tag in front of
what stands at `p`: an element without content, one that does not admit the next one, or one in
another one that is closed. -/
def endImplicitly (tags : List Tag) (p : Place) : Option (List Tag) :=
  let parent := tags.getLast?
  let closing := p.head? = some '/'
  if !closing && parent.any Tag.isVoid then some tags.dropLast
  else
    let (name, after) := readName (if closing then p.next else p)
    if name.isEmpty && !after.atEnd then none
    else
      let next := Tag.ofName name
      if closing then
        if parent = some next then none
        else if tags.any (·.isAlike next) then some tags.dropLast
        else none
      else
        match parent with
        | none => none
        | some parent =>
          if !parent.admits next || (parent.isOneOf ["HTML", "HEAD", "BODY"] && after.atEnd) then
            some tags.dropLast
          else none

/-- The scanner of HTML documents. It remembers the open elements, once it found something. -/
def scan (memory : Option OpenTags) (wanted : NatSet) (p : Place) :
    Option (Scanned (Option OpenTags)) :=
  let tags := (memory.map OpenTags.tags).getD []
  let wants := fun (t : TagToken) => wanted.mem t.index
  let found := fun (t : TagToken) (start stop : Place) (tags : List Tag) =>
    some (Scanned.mk t.index start stop (some (OpenTags.ofTags tags)))
  let p := Language.skipMark p
  if wants .rawText && !wants .startName && !wants .endName then
    match tags.getLast? with
    | none => none
    | some t =>
      let closing := (if t = .known "SCRIPT" then "</SCRIPT" else "</STYLE").toList
      found .rawText p (rawEnd closing closing p p.passed p.rest) tags
  else
    let p := p.skipWhile isBlank
    let implicitly := fun (behind : Place) =>
      if wants .implicitEnd then
        (endImplicitly tags behind).bind (found .implicitEnd p p)
      else none
    match p.rest with
    | [] => implicitly p
    | '\x00' :: _ => implicitly p
    | '<' :: '!' :: '-' :: '-' :: cs =>
      (commentEnd 0 (p.passed + .ofChars "<!--".toList) cs).bind fun stop =>
        found .comment p stop tags
    | '<' :: '!' :: _ => none
    | '<' :: _ => implicitly p.next
    | '/' :: cs =>
      if wants .selfClosing && cs.head? = some '>' then
        if tags.isEmpty then found .startName p p.next.next tags
        else found .selfClosing p p.next.next tags.dropLast
      else none
    | _ =>
      if (wants .startName || wants .endName) && !wants .rawText then
        let (name, after) := readName p
        let tag := Tag.ofName name
        if name.isEmpty then none
        else if wants .startName then
          let token :=
            if tag = .known "SCRIPT" then .scriptName
            else if tag = .known "STYLE" then .styleName else TagToken.startName
          found token p after (tags ++ [tag])
        else if tags.getLast? = some tag then found .endName p after tags.dropLast
        else found .wrongEndName p after tags
      else none

/-- The language of HTML documents. -/
def language : Thunk (Parsing.Language (Option OpenTags)) :=
  Thunk.mk fun _ => { table := .ofGrammar grammar, initial := none, scan }

end BaselineAudit.Html
