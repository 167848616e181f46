import BaselineAudit.Component.Bindings
import BaselineAudit.Script.Number

/-!
# Values that a script shows

The text or the object that an expression stands for, as far as its own text and the constants of the
script show it. The way to each part of the value is bounded, so constants that are defined by
themselves have none.
-/

namespace BaselineAudit.Component

open Script

/-- How many steps lead from an expression to a part of its value. -/
def maxDepth : Nat := 8

/-- The text of a template. -/
def templateText (value : Tree → Option String) : List Piece → List Tree → Option String
  | [], _ => some ""
  | p :: pieces, [] => do pure (p.text ++ (← templateText value pieces []))
  | p :: pieces, e :: rest => do
    pure (p.text ++ (← value e) ++ (← templateText value pieces rest))

/-- The text that an expression stands for, if fewer than `depth` steps lead to it. -/
def textWithin (b : Bindings) : (depth : Nat) → Tree → Option String
  | 0, _ => none
  | depth + 1, t =>
    match t with
    | .node (.string value) _ _ => some value
    | .node (.number literal) _ _ => some (Number.text literal)
    | .node (.template pieces) _ parts => templateText (textWithin b depth) pieces parts
    | .node .sum _ [left, right] => do
      pure ((← textWithin b depth left) ++ (← textWithin b depth right))
    | .node .parens _ (e :: _) | .node .cast _ (e :: _) | .node .nonNull _ (e :: _) =>
      textWithin b depth e
    | .node (.reference name) _ _ => (b.get? name).bind (textWithin b depth)
    | _ => none

/-- The text that an expression stands for. -/
def text? (b : Bindings) (t : Tree) : Option String := textWithin b (maxDepth + 1) t

/-- The properties of the object that an expression stands for, if fewer than `depth` steps lead to
it. -/
def objectWithin (b : Bindings) : (depth : Nat) → Tree → Option (List Tree)
  | 0, _ => none
  | depth + 1, t =>
    match t with
    | .node (.object _) _ properties => some properties
    | .node .parens _ (e :: _) | .node .cast _ (e :: _) => objectWithin b depth e
    | .node (.reference name) _ _ => (b.get? name).bind (objectWithin b depth)
    | _ => none

/-- The properties of the object that an expression stands for. -/
def object? (b : Bindings) (t : Tree) : Option (List Tree) := objectWithin b (maxDepth + 1) t

/-- The value of a style property. Several values stand in an array. -/
def styleValue? (b : Bindings) : Tree → Option String
  | .node (.array _) _ items => do pure (" ".intercalate (← items.mapM (text? b)))
  | t => text? b t

end BaselineAudit.Component
