import BaselineAudit.Script.Parser.Statement

/-!
# Parsing scripts

`parse?` gives the tree of a script in a dialect, or none if the script breaks a rule.
-/

namespace BaselineAudit.Script

namespace Parser

/-- The rules, given how others are parsed. -/
def rules (d : Descent) : Descent
  | .statement single => statement d single
  | .expression => expression d
  | .assignment arrowType => assignment d arrowType
  | .operators bound => operators d bound
  | .unary => unary d
  | .leftHand => leftHand d
  | .callee => callee d
  | .type => type d
  | .typeOperand => typeOperand d
  | .pattern => pattern d
  | .block => block d
  | .functionBody => functionBody d
  | .markup inside => markup d inside

/-- The rules up to a depth. -/
def descent : (depth : Nat) → Descent
  | 0 => fun _ => fail
  | depth + 1 => fun goal => rules (descent depth) goal

/-- The statements of a script up to its end. -/
def script (d : Descent) : P Tree := do
  let statements ← many (do pure !(← atEnd)) do pure [← d (.statement false)]
  finish .script 0 statements

/-- How many rules can be nested for each character. -/
def depthPerChar : Nat := 16

/-- The state at the start of a text. Scripts are modules, in which `await` is a keyword. -/
def start (dialect : Dialect) (cs : List Char) : State :=
  let l := Lexer.first cs
  { dialect
    context := { hasAwait := true }
    token := l.token
    here := l.here
    rest := l.rest
    flawed := l.flawed }

end Parser

/-- The tree of a script. -/
def parse? (dialect : Dialect) (source : String) : Option Tree :=
  let cs := source.toList
  let depth := Parser.depthPerChar * (cs.length + 1)
  match Parser.script (Parser.descent depth) (Parser.start dialect cs) with
  | some (tree, s) => if s.flawed || !s.pending.isEmpty then none else some tree
  | none => none

end BaselineAudit.Script
