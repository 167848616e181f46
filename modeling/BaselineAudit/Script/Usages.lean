import BaselineAudit.Report.Issue
import BaselineAudit.Script.Parser

/-!
# Usages in scripts

Every name that stands for a value may be a global name, and every member of a name may be a member of
a global object. Where a name is declared does not matter.

A visit goes through the tree of a script and makes the checks. Parts of the text can be left out: no
check is made for a node within one of them, but the visit goes on.
-/

namespace BaselineAudit.Script

/-- A usage with the part of the text that it takes: a name its own, and a member all of
`object.property`. -/
structure Check where
  span : Span
  usage : Usage

namespace Check

/-- The check of a name that stands for a value. -/
def ofName (locate : Nat → Location) (name : String) (span : Span) : Check :=
  ⟨span, .ofBuiltin name (locate span.start)⟩

/-- The check of a member of a name. -/
def ofMember (locate : Nat → Location) (object property : String) (span : Span) : Check :=
  ⟨span, .ofApi object property (locate span.start)⟩

end Check

/-- A part of the text lies within one of those that are left out. -/
def isSuppressed (suppressed : List Span) (span : Span) : Bool :=
  suppressed.any fun outer => span.within outer

/-- The shapes that a visit does not enter: the names of elements and of exports, and what is about
types only. -/
def Shape.isClosed : Shape → Bool
  | .elementName | .exportSpecifier | .type | .interface | .typeAlias | .implemented => true
  | _ => false

/-- The check of a member. It is made if the object is a name. -/
def checkMember (locate : Nat → Location) (suppressed : List Span) (property : String) (span : Span) :
    (object : List Tree) → List Check
  | [.node (.reference object) _ _] =>
    if isSuppressed suppressed span then [] else [.ofMember locate object property span]
  | _ => []

mutual

/-- The checks of a visit to a tree, in order. A name has nothing within that is visited; a member is
checked, and then its object is visited. -/
def checksOf (locate : Nat → Location) (suppressed : List Span) : Tree → List Check
  | .node (.reference name) span _ =>
    if isSuppressed suppressed span then [] else [.ofName locate name span]
  | .node (.member property) span object =>
    checkMember locate suppressed property span object ++ checksOfAll locate suppressed object
  | .node shape _ children =>
    if shape.isClosed then [] else checksOfAll locate suppressed children

/-- The checks of a visit to trees, one after the other. -/
def checksOfAll (locate : Nat → Location) (suppressed : List Span) : List Tree → List Check
  | [] => []
  | t :: rest => checksOf locate suppressed t ++ checksOfAll locate suppressed rest

end

/-- What a script uses, outside of the parts that are left out. -/
def usagesOf (locate : Nat → Location) (suppressed : List Span) (t : Tree) : List Usage :=
  (checksOf locate suppressed t).map (·.usage)

/-- Scripts without types and markup. -/
def Dialect.plain : Dialect := ⟨false, false⟩

/-- Scripts with types or without, and without markup. -/
def Dialect.ofTyped (typed : Bool) : Dialect := ⟨typed, false⟩

/-- Scripts with types and markup. -/
def Dialect.component : Dialect := ⟨true, true⟩

/-- What a script uses that stands somewhere in a document, if it can be read. -/
def usages? (dialect : Dialect) (origin : Origin) (source : String) : Option (List Usage) := do
  let tree ← parse? dialect source
  let lines := LineIndex.ofText source
  pure (usagesOf (fun offset => origin.map (lines.locate offset)) [] tree)

end BaselineAudit.Script
