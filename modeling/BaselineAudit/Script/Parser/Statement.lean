import BaselineAudit.Script.Parser.Expression
import BaselineAudit.Script.Parser.Module

/-!
# Statements
-/

namespace BaselineAudit.Script.Parser

/-- Statements in braces. -/
def block (d : Descent) : P Tree := do
  let start ← startHere
  expect "\x7b"
  let statements ← upTo "\x7d" (d (.statement false))
  expect "\x7d"
  finish .block start statements

/-- An expression in parentheses, which are no part of it. -/
def condition (d : Descent) : P Tree := do
  expect "("
  let e ← grouped (d .expression)
  expect ")"
  pure e

/-! ## Conditions and loops -/

/-- `if` and its branches. -/
def ifStatement (d : Descent) : P Tree := do
  let start ← startHere
  expect "if"
  let test ← condition d
  let yes ← d (.statement true)
  let no ← if ← eat "else" then pure [← d (.statement true)] else pure []
  finish .statement start (test :: yes :: no)

/-- A loop that runs once at least. -/
def doStatement (d : Descent) : P Tree := do
  let start ← startHere
  expect "do"
  let body ← d (.statement true)
  expect "while"
  let test ← condition d
  let _ ← eat ";"
  finish .statement start [body, test]

/-- A loop or scope with a single expression in front. -/
def headedStatement (d : Descent) : P Tree := do
  let start ← startHere
  bump
  let head ← condition d
  let body ← d (.statement true)
  finish .statement start [head, body]

/-- The rest of a loop over the items of something. -/
def loopOver (d : Descent) (start : Nat) (waits : Bool) (item : Tree) : P Tree := do
  let isIn ← isAt "in"
  bump
  let items ← if isIn then d .expression else d (.assignment true)
  expect ")"
  flawIf (waits && isIn)
  let body ← d (.statement true)
  finish .statement start [item, items, body]

/-- The rest of a loop that counts. -/
def countingLoop (d : Descent) (start : Nat) (waits : Bool) (init : List Tree) : P Tree := do
  for t in init do
    match t with
    | .node (.variableList isConst) _ ds =>
      for v in ds do
        checkValue (if isConst then .const else .plain) v
    | _ => pure ()
  expect ";"
  let test ← if ← isAt ";" then pure [] else pure [← grouped (d .expression)]
  expect ";"
  let step ← if ← isAt ")" then pure [] else pure [← grouped (d .expression)]
  expect ")"
  flawIf waits
  let body ← d (.statement true)
  finish .statement start (init ++ test ++ step ++ [body])

/-- Do variables stand in the head of a loop? -/
def startsLoopVariables : P Bool := do
  let t ← peek
  let next ← peekNext
  if t.isOneOf ["var", "const"] then pure true
  else if t.is "let" then
    pure (!next.is "in" && (next.isWord || next.isOneOf ["\x7b", "["]))
  else pure false

/-- Do variables that are released stand in the head of a loop? `using of` starts with a name. -/
def startsLoopResources : P Bool := do
  if ← isAt "using" then
    let next ← peekNext
    pure ((← isUsing) && !next.is "of")
  else if ← isAt "await" then isAwaitUsing
  else pure false

/-- Without `in` as an operator. -/
def withoutIn {α : Type} (p : P α) : P α := within (fun c => { c with hasIn := false }) p

/-- A loop with a head. -/
def forStatement (d : Descent) : P Tree := do
  let start ← startHere
  expect "for"
  let waits ← isAt "await"
  if waits then
    flawIf !(← context).hasAwait
    bump
  expect "("
  if ← isAt ";" then countingLoop d start waits []
  else
    let declared ← startsLoopVariables
    let resources ← startsLoopResources
    if declared || resources then
      let vars ← withoutIn (if declared then variableList d true else usingVariables d true)
      if ← atOneOf ["in", "of"] then loopOver d start waits vars
      else countingLoop d start waits [vars]
    else
      let first ← peek
      let e ← withoutIn (d .expression)
      if ← atOneOf ["in", "of"] then
        takeTarget e
        flawIf (!waits && first.is "async" && !first.escaped && (← isAt "of") &&
          e.reference?.isSome)
        flawIf (first.is "let" && (← isAt "of"))
        loopOver d start waits e
      else countingLoop d start waits [e]

/-! ## Other statements -/

/-- Leaving a loop, or a turn of it. -/
def jumpStatement : P Tree := do
  let start ← startHere
  bump
  if !(← atStatementEnd) then
    let _ ← referenceName
  semicolon
  finish .statement start []

/-- Leaving a function. -/
def returnStatement (d : Descent) : P Tree := do
  let start ← startHere
  expect "return"
  flawIf !(← context).hasReturn
  let value ← if ← atStatementEnd then pure [] else pure [← grouped (d .expression)]
  semicolon
  finish .statement start value

/-- Throwing a value, which starts on the same line. -/
def throwStatement (d : Descent) : P Tree := do
  let start ← startHere
  expect "throw"
  flawIf (← peek).newline
  let value ← d .expression
  semicolon
  finish .statement start [value]

/-- A case of a `switch`. -/
def switchCase (d : Descent) : P Tree := do
  let start ← startHere
  let test ← if ← eat "default" then pure []
    else do
      expect "case"
      pure [← d .expression]
  expect ":"
  let more : P Bool := do pure !((← atEnd) || (← atOneOf ["case", "default", "\x7d"]))
  let body ← many more do pure [← d (.statement false)]
  finish .other start (test ++ body)

/-- A choice between cases. -/
def switchStatement (d : Descent) : P Tree := do
  let start ← startHere
  expect "switch"
  let value ← condition d
  expect "\x7b"
  let cases ← upTo "\x7d" (switchCase d)
  expect "\x7d"
  finish .statement start (value :: cases)

/-- What is done about an error. -/
def catchClause (d : Descent) : P (List Tree) := do
  expect "catch"
  let name ← if ← eat "(" then do
      let p ← d .pattern
      let types ← ascribedType d
      expect ")"
      pure (p :: types)
    else pure []
  pure (name ++ [← d .block])

/-- A block with what is done about errors in it or behind it. -/
def tryStatement (d : Descent) : P Tree := do
  let start ← startHere
  expect "try"
  let body ← d .block
  let handler ← if ← isAt "catch" then catchClause d else pure []
  let last ← if ← eat "finally" then pure [← d .block] else pure []
  flawIf (handler.isEmpty && last.isEmpty)
  finish .statement start (body :: handler ++ last)

/-- A word or semicolon alone. -/
def bareStatement : P Tree := do
  let start ← startHere
  if ← eat ";" then finish .statement start []
  else
    bump
    semicolon
    finish .statement start []

/-- An expression, or a label in front of a statement. -/
def expressionStatement (d : Descent) : P Tree := do
  let start ← startHere
  let e ← d .expression
  let isLabel ← if e.reference?.isSome then eat ":" else pure false
  if isLabel then
    let s ← d (.statement true)
    finish .statement start [s]
  else
    semicolon
    finish .statement start [e]

/-- Operators that do not make a name of a `let` in front of them. The words among them are declared
there. -/
def operatorsOutsideLet : List String := ["as", "satisfies", "??", "||", "&&"]

/-- A statement that starts with `let`, which may also be a name. -/
def letStatement (d : Descent) (single : Bool) : P Tree := do
  let start ← startHere
  let next ← peekNext
  let isOperator := next.precedence?.isSome && !next.isOneOf operatorsOutsideLet
  if next.isAssignment || isOperator || next.isOneOf [".", "("] then
    let e ← d .expression
    semicolon
    finish .statement start [e]
  else if (single && !next.is "[") || next.is ";" then
    let e ← referenceName
    semicolon
    finish .statement start [e]
  else
    flawIf single
    variableList d false

/-- A class or export with decorators in front. -/
def decoratedStatement (d : Descent) (single : Bool) : P Tree := do
  let start ← startHere
  let decs ← decorators d
  if ← isAt "export" then exportDeclaration d start decs
  else
    let mods ← modifiers false false
    checkModifiers (if ← typed then ["abstract", "declare"] else []) mods
    flawIf single
    classFrom d start decs true

/-- Words with which declarations start that only scripts with types have. -/
def typedStarts : List String :=
  ["interface", "type", "module", "namespace", "declare", "enum", "private", "protected", "public",
    "abstract", "accessor", "static", "readonly", "global", "async"]

/-- A statement that starts with a word that may also be a name. -/
def wordStatement (d : Descent) (single : Bool) (t : Token) : P Tree := do
  if t.is "async" && (← atFunction) then functionDeclaration d single false
  else if t.is "let" && !t.escaped then letStatement d single
  else if (t.is "using" && (← isUsing)) || (t.is "await" && (← isAwaitUsing)) then
    flawIf single
    usingVariables d false
  else if typedStarts.contains t.text && (← typed) && (← startsDeclaration) then declaration d []
  else expressionStatement d

/-- A statement; `single` where it stands alone and not in a list. -/
def statement (d : Descent) (single : Bool) : P Tree := do
  let t ← peek
  match t.kind, t.text with
  | .punct, "\x7b" => d .block
  | .punct, ";" => bareStatement
  | .punct, "@" => decoratedStatement d single
  | .word, "debugger" => bareStatement
  | .word, "var" => variableList d false
  | .word, "const" =>
    if (← typed) && (← peekNext).is "enum" then declaration d []
    else
      flawIf single
      variableList d false
  | .word, "function" => functionDeclaration d single false
  | .word, "class" =>
    flawIf single
    classFrom d t.start [] true
  | .word, "if" => ifStatement d
  | .word, "do" => doStatement d
  | .word, "while" | .word, "with" => headedStatement d
  | .word, "for" => forStatement d
  | .word, "continue" | .word, "break" => jumpStatement
  | .word, "return" => returnStatement d
  | .word, "switch" => switchStatement d
  | .word, "throw" => throwStatement d
  | .word, "try" => tryStatement d
  | .word, "export" => exportDeclaration d t.start []
  | .word, "import" =>
    if (← peekNext).isOneOf [".", "("] then expressionStatement d else importDeclaration
  | .word, _ => wordStatement d single t
  | _, _ => expressionStatement d

end BaselineAudit.Script.Parser
