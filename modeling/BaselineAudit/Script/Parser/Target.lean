import BaselineAudit.Script.Tree

/-!
# What can be assigned to

An expression in front of a `=` is read again as a target: a name, a member, or a pattern of targets.
-/

namespace BaselineAudit.Script.Target

/-- A name or member. -/
def isPlace (t : Tree) : Bool :=
  match t.shape with
  | .reference _ | .member _ | .index | .privateMember => true
  | _ => false

/-- Types and parentheses around a name or member. -/
def isWrappedPlace : Tree → Bool
  | .node .parens _ [t] | .node .cast _ [t, _] | .node .assertion _ [_, t] | .node .nonNull _ [t] =>
    isWrappedPlace t
  | t => isPlace t

/-- An object or array. -/
def isPattern (t : Tree) : Bool :=
  match t.shape with
  | .object _ | .array _ => true
  | _ => false

/-- A target that is no pattern. -/
def isSimple : Tree → Bool
  | .node .parens _ [t] => !isPattern t && isSimple t
  | .node .cast _ [t, _] | .node .assertion _ [_, t] | .node .nonNull _ [t] => isWrappedPlace t
  | t => isPlace t

mutual

/-- A target. -/
def isTarget : Tree → Bool
  | .node (.array trailing) _ items => areItems trailing items
  | .node (.object trailing) _ items => areItems trailing items
  | t => isSimple t

/-- The items of a pattern. A rest is the last one and has no comma behind it. -/
def areItems (trailing : Bool) : List Tree → Bool
  | [] => true
  | [.node .spread _ [t]] => !trailing && isTarget t
  | t :: rest => isItem t && areItems trailing rest

/-- An item of a pattern, which may have a value in case there is none. -/
def isItem : Tree → Bool
  | .node .hole _ _ => true
  | .node (.property _ shorthand) _ parts => shorthand || isValue parts
  | .node (.assignment operator) _ _ => operator == "="
  | .node (.array trailing) _ items => areItems trailing items
  | .node (.object trailing) _ items => areItems trailing items
  | t => isSimple t

/-- The key and the value of a property in a pattern. -/
def isValue : List Tree → Bool
  | [_, value] => isItem value
  | _ => false

end

mutual

/-- Where the shorthand properties of a pattern start. -/
def shorthands : Tree → List Nat
  | .node (.property _ true) span _ => [span.start]
  | .node (.property _ false) _ parts => shorthandsOfAll parts
  | .node (.array _) _ items => shorthandsOfAll items
  | .node (.object _) _ items => shorthandsOfAll items
  | .node .spread _ items => shorthandsOfAll items
  | _ => []

/-- Where the shorthand properties of patterns start. -/
def shorthandsOfAll : List Tree → List Nat
  | [] => []
  | t :: rest => shorthands t ++ shorthandsOfAll rest

end

end BaselineAudit.Script.Target
