import BaselineAudit.Script.Tree

/-!
# Constants of a script

The values of constants by name, as far as they are declared at the top of the script or at the top of
a function there. The first constant of a name counts, whatever the scope.
-/

namespace BaselineAudit.Component

open Script

/-- The values of constants, the first ones in front. -/
abbrev Bindings := List (String × Tree)

/-- The value of a constant. -/
def Bindings.get? (b : Bindings) (name : String) : Option Tree := List.lookup name b

/-- The statements of a function. An arrow function may have an expression instead. -/
def statementsOf : Tree → List Tree
  | .node .function _ parts | .node .arrow _ parts =>
    match parts.getLast? with
    | some (.node .body _ statements) => statements
    | _ => []
  | _ => []

/-- A value under the name of a variable, unless there is a pattern in its place. -/
def constantOf (value : Tree) : List Tree → Bindings
  | .node (.binding name) _ _ :: _ => [(name, value)]
  | _ => []

/-- The constants of a variable and of the function that is its value. -/
def constantsOfVariable (inside : Tree → Bindings) (isConst : Bool) : Tree → Bindings
  | .node (.declarator true) _ parts =>
    match parts.getLast? with
    | some value => (if isConst then constantOf value parts else []) ++ inside value
    | none => []
  | _ => []

/-- The constants of a declaration. -/
def constantsOfDeclaration (inside : Tree → Bindings) : Tree → Bindings
  | .node (.variableList isConst) _ declarators =>
    declarators.flatMap (constantsOfVariable inside isConst)
  | .node .function span parts => inside (.node .function span parts)
  | _ => []

/-- The constants of a statement. -/
def constantsOfStatement (inside : Tree → Bindings) : Tree → Bindings
  | .node .exportNamed _ [declaration] => constantsOfDeclaration inside declaration
  | .node .exportDefault _ [value] => inside value
  | t => constantsOfDeclaration inside t

/-- The constants at the top of a function, and none of those within. -/
def constantsOfFunction (f : Tree) : Bindings :=
  (statementsOf f).flatMap (constantsOfStatement fun _ => [])

/-- The constants of a script. -/
def Bindings.ofScript (t : Tree) : Bindings :=
  t.children.flatMap (constantsOfStatement constantsOfFunction)

end BaselineAudit.Component
