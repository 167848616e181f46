import BaselineAudit.Script.Tree
import BaselineAudit.Text.Slice

/-!
# Style text of templates

The text of a template as it stands in the source, with blanks in place of the expressions in it. No
byte moves, so a place in the text is the same place in the source.
-/

namespace BaselineAudit.Component

open Script

/-- What stands in place of an expression: as many bytes, all of them blank, with its newlines. The
last byte is a digit, so that a unit behind it is read as one. -/
def placeholder : List Char → List Char
  | [] => []
  | [c] => List.replicate (c.utf8Size - 1) ' ' ++ ['0']
  | c :: cs =>
    (if c = '\n' then ['\n'] else List.replicate c.utf8Size ' ') ++ placeholder cs

/-- The source between two offsets, with the given expressions in it replaced. An expression is
replaced together with its braces: from the last opening in front of it to the first closing brace
behind it. -/
def replaced (source : List Char) (stop : Nat) : (start : Nat) → List Span → Option (List Char)
  | start, [] => Text.slice? source start stop
  | start, e :: rest => do
    let front ← Text.beforeLastPair? '$' '\x7b' (← Text.slice? source start e.start)
    let back ← Text.beforeFirst? (· = '\x7d') (← Text.slice? source e.stop stop)
    let next := e.stop + Text.byteSize back + 1
    let hole ← Text.slice? source (start + Text.byteSize front) next
    pure (front ++ placeholder hole ++ (← replaced source stop next rest))

/-- The style text of a template. -/
def templateStyles? (source : List Char) (template : Tree) : Option String :=
  (replaced source (template.span.stop - 1) (template.span.start + 1)
    (template.children.map Tree.span)).map String.ofList

end BaselineAudit.Component
