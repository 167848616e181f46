import BaselineAudit.Script.Parser.Function
import BaselineAudit.Script.Parser.Markup
import BaselineAudit.Script.Parser.Target

/-!
# Expressions
-/

namespace BaselineAudit.Script.Parser

/-- Within brackets of any kind. -/
def grouped {α : Type} (p : P α) : P α :=
  within (fun c => { c with hasIn := true, isDecorator := false }) p

/-! ## Targets of assignments -/

/-- An expression is assigned to. The shorthand properties in it may have values. -/
def takeTarget (t : Tree) : P Unit := do
  flawIf !(Target.isTarget t)
  let taken := Target.shorthands t
  modify fun s => { s with pending := s.pending.filter (!taken.contains ·) }

/-- An expression is changed in place. -/
def takePlace (t : Tree) : P Unit := flawIf !(Target.isSimple t)

/-! ## Literals -/

/-- The rest of a template behind an expression. -/
def templateRestFrom (d : Descent) (tagged : Bool) : (fuel : Nat) → P (List Piece × List Tree)
  | 0 => fail
  | n + 1 => do
    let e ← grouped (d .expression)
    if ← isAt "\x7d" then relex Lexer.templateTail
    let t ← peek
    match t.kind with
    | .template false ends cooked =>
      flawIf (!tagged && cooked.isNone)
      bump
      let piece : Piece := ⟨cooked, t.text⟩
      if ends then pure ([piece], [e])
      else
        let (pieces, es) ← templateRestFrom d tagged n
        pure (piece :: pieces, e :: es)
    | _ => fail

/-- A template. Without a tag all its escapes have a meaning. -/
def template (d : Descent) (tagged : Bool) : P Tree := do
  let t ← peek
  match t.kind with
  | .template true ends cooked =>
    flawIf (!tagged && cooked.isNone)
    bump
    let piece : Piece := ⟨cooked, t.text⟩
    if ends then finish (.template [piece]) t.start []
    else
      let (pieces, es) ← templateRestFrom d tagged (← fuel)
      finish (.template (piece :: pieces)) t.start es
  | _ => fail

/-- A regular expression. -/
def regex : P Tree := do
  let s ← get
  match Lexer.regex? s.token s.here with
  | none => fail
  | some l =>
    put l
    advance
    finish (.regex l.token.text) l.token.start []

/-- `...` and what is spread. -/
def spread (d : Descent) : P Tree := do
  let start ← startHere
  expect "..."
  let e ← d (.assignment true)
  finish .spread start [e]

/-- An item of an array or an argument of a call. -/
def itemOrSpread (d : Descent) : P Tree := do
  if ← isAt "..." then spread d else d (.assignment true)

/-- An array. -/
def array (d : Descent) : P Tree := do
  let start ← startHere
  let (items, trailing) ← grouped <| between "[" "]" do
    if ← isAt "," then finish .hole (← startHere) [] else itemOrSpread d
  finish (.array trailing) start items

/-! ## Objects -/

/-- A getter or setter of an object. -/
def objectAccessor (d : Descent) (start : Nat) (mods : List String) (check : Parameters → P Unit) :
    P Tree := do
  let key ← propertyKey d
  let (parts, f) ← method d false false
  check parts.parameters
  checkModifiers [] mods
  finish (.property key.name false) start [key.node, f]

/-- A shorthand property. With a value it has to become part of a pattern. -/
def shorthandProperty (d : Descent) (t : Token) : P Tree := do
  checkName t (← context)
  let name ← finish (.reference t.text) t.start []
  if ← eat "=" then
    modify fun s => { s with pending := t.start :: s.pending }
    let value ← grouped (d (.assignment true))
    finish (.property (some t.text) true) t.start [name, value]
  else finish (.property (some t.text) true) t.start [name]

/-- A property of an object. -/
def property (d : Descent) : P Tree := do
  let start ← startHere
  if ← isAt "..." then spread d
  else
    let mods ← modifiers false false
    if ← eatModifier "get" then objectAccessor d start mods checkGetter
    else if ← eatModifier "set" then objectAccessor d start mods checkSetter
    else
      let isGenerator ← eat "*"
      let t ← peek
      let key ← propertyKey d
      if ← eat "?" then flaw
      if ← eat "!" then flaw
      if isGenerator || (← atOneOf ["(", "<"]) then
        let (_, f) ← method d (mods.contains "async") isGenerator
        checkModifiers ["async"] mods
        finish (.property key.name false) start [key.node, f]
      else
        checkModifiers [] mods
        if t.isName && !(← isAt ":") then shorthandProperty d t
        else
          expect ":"
          let value ← d (.assignment true)
          finish (.property key.name false) start [key.node, value]

/-- An object. -/
def object (d : Descent) : P Tree := do
  let start ← startHere
  let (items, trailing) ← grouped (between "\x7b" "\x7d" (property d))
  finish (.object trailing) start items

/-! ## Expressions that start with a word -/

/-- A dynamic import or what is known about the script, behind `import`. -/
def importExpression (d : Descent) : P Tree := do
  let start ← startHere
  expect "import"
  let isMeta ← if ← eat "." then
      if ← isAt "meta" then
        bump
        pure true
      else if ← atOneOf ["source", "defer"] then
        bump
        pure false
      else fail
    else pure false
  if isMeta then finish .other start []
  else
    expect "("
    let source ← grouped (d (.assignment true))
    let options ← if ← eat "," then
        if ← isAt ")" then pure []
        else
          let options ← grouped (d (.assignment true))
          let _ ← eat ","
          pure [options]
      else pure []
    expect ")"
    finish .importCall start (source :: options)

/-- The arguments of a call. -/
def arguments (d : Descent) : P (List Tree) := do
  let (items, _) ← grouped (between "(" ")" (itemOrSpread d))
  pure items

/-- A generic value and its type arguments, if it has some. -/
def splitArguments (t : Tree) : Tree × List Tree :=
  match t with
  | .node .instantiation _ (value :: types) => (value, types)
  | _ => (t, [])

/-- A new object. -/
def newExpression (d : Descent) : P Tree := do
  let start ← startHere
  expect "new"
  if ← eat "." then
    expect "target"
    finish .other start []
  else
    let (callee, types) := splitArguments (← d .callee)
    let args ← if ← isAt "(" then arguments d else pure []
    flawIf (callee.shape == .importCall)
    finish .construct start (callee :: types ++ args)

/-- `super`, which never stands alone. -/
def superExpression : P Tree := do
  let start ← startHere
  expect "super"
  flawIf !(← atOneOf [".", "[", "("])
  finish .other start []

/-- An expression in parentheses. -/
def parenthesized (d : Descent) : P Tree := do
  let start ← startHere
  expect "("
  let inner ← startHere
  let (items, trailing) ← grouped (commas ")" (d (.assignment true)))
  flawIf trailing
  match items with
  | [] => fail
  | [e] =>
    expect ")"
    finish .parens start [e]
  | _ =>
    let e ← finish .sequence inner items
    expect ")"
    finish .parens start [e]

/-- A class with decorators in front. -/
def decoratedClass (d : Descent) : P Tree := do
  let start ← startHere
  let decs ← decorators d
  classFrom d start decs false

/-- A word as it is. -/
def wordLiteral (shape : Shape) : P Tree := do
  let start ← startHere
  bump
  finish shape start []

/-- An expression that is not made of smaller ones by operators. -/
def primary (d : Descent) : P Tree := do
  let t ← peek
  match t.kind with
  | .string => wordLiteral (.string t.text)
  | .number => wordLiteral (.number t.text)
  | .bigint => wordLiteral (.bigint t.text)
  | .template true _ _ => template d false
  | .punct =>
    match t.text with
    | "(" => parenthesized d
    | "[" => array d
    | "\x7b" => object d
    | "/" | "/=" => regex
    | "@" => decoratedClass d
    | _ => fail
  | .word =>
    match t.text with
    | "this" | "true" | "false" => wordLiteral .other
    | "null" => wordLiteral .null
    | "function" => functionExpression d
    | "class" => classFrom d t.start [] false
    | "new" => newExpression d
    | "super" => superExpression
    | "import" => importExpression d
    | _ => if ← atFunction then functionExpression d else referenceName
  | _ => fail

/-! ## Members and calls -/

/-- A template behind a tag, which must not be in a chain. -/
def taggedTemplate (d : Descent) (tag : Tree) (inChain : Bool) : P Tree := do
  let (tag, types) := splitArguments tag
  let text ← template d true
  flawIf inChain
  finish .tagged tag.span.start (tag :: types ++ [text])

/-- The member of an object that is named by the current token. -/
def namedMember (start : Nat) (object : Tree) : P Tree := do
  let t ← peek
  if t.kind == .privateName then
    bump
    finish .privateMember start [object]
  else
    let name ← anyWord
    finish (.member name) start [object]

/-- The member of an object at an index. -/
def indexedMember (d : Descent) (start : Nat) (object : Tree) : P Tree := do
  expect "["
  let i ← grouped (d .expression)
  expect "]"
  finish .index start [object, i]

/-- Members of an expression, and whether one of them is optional. -/
def membersFrom (d : Descent) (start : Nat) : (fuel : Nat) → Tree → (inChain : Bool) →
    P (Tree × Bool)
  | 0, _, _ => fail
  | n + 1, e, inChain => do
    let t ← peek
    let plain := !(← context).isDecorator
    if t.is "." then
      bump
      membersFrom d start n (← namedMember start e) inChain
    else if t.is "[" && plain then
      membersFrom d start n (← indexedMember d start e) inChain
    else if t.is "?." then
      let next ← peekNext
      if next.isWord || next.kind == .privateName then
        bump
        membersFrom d start n (← namedMember start e) true
      else if next.is "[" && plain then
        bump
        membersFrom d start n (← indexedMember d start e) true
      else pure (e, inChain)
    else if t.is "!" && !t.newline && (← typed) then
      bump
      membersFrom d start n (← finish .nonNull start [e]) inChain
    else if t.startsTemplate then
      membersFrom d start n (← taggedTemplate d e inChain) inChain
    else if t.isOneOf ["<", "<<"] && (← typed) then
      match ← typeArgumentsInExpression d with
      | some types => membersFrom d start n (← finish .instantiation start (e :: types)) inChain
      | none => pure (e, inChain)
    else pure (e, inChain)

/-- An expression with its members, behind `new`. -/
def callee (d : Descent) : P Tree := do
  let start ← startHere
  let e ← primary d
  let (e, inChain) ← membersFrom d start (← fuel) e false
  flawIf inChain
  pure e

/-- The type arguments behind `?.`, if there are some. -/
def argumentsInChain (d : Descent) : P (List Tree) := do
  if (← typed) && (← atOneOf ["<", "<<"]) then
    match ← typeArgumentsInExpression d with
    | some types => pure types
    | none => fail
  else pure []

/-- Members and calls of an expression. -/
def callsFrom (d : Descent) (start : Nat) : (fuel : Nat) → Tree → (inChain : Bool) →
    P (Tree × Bool)
  | 0, _, _ => fail
  | n + 1, e, inChain => do
    let (e, inChain) ← membersFrom d start (← fuel) e inChain
    let optional ← eat "?."
    let inChain := inChain || optional
    let given ← if optional then argumentsInChain d else pure []
    let t ← peek
    if t.is "(" then
      let (f, types) := if optional then (e, given) else splitArguments e
      let args ← arguments d
      callsFrom d start n (← finish .call start (f :: types ++ args)) inChain
    else if optional then
      if t.startsTemplate then callsFrom d start n (← taggedTemplate d e true) true else fail
    else pure (e, inChain)

/-- An expression that can be called or assigned to. -/
def leftHand (d : Descent) : P Tree := do
  let start ← startHere
  let e ← primary d
  let (e, inChain) ← callsFrom d start (← fuel) e false
  if inChain then finish .chain start [e] else pure e

/-! ## Operators -/

/-- Is `await` an operator here? Where it is not reserved, it is one in front of a word or literal. -/
def isAwait : P Bool := do
  if (← context).hasAwait then pure true
  else
    let next ← peekNext
    pure (!next.newline && (next.isWord || next.isLiteral))

/-- An expression with operators in front of it or right behind it. -/
def unary (d : Descent) : P Tree := do
  let t ← peek
  if t.isUnary then
    bump
    let e ← d .unary
    finish .unary t.start [e]
  else if t.isOneOf ["++", "--"] then
    bump
    let e ← d .unary
    takePlace e
    finish .other t.start [e]
  else if t.is "<" then
    if ← hasMarkup then d (.markup false)
    else if ← typed then
      bump
      let said ← d .type
      expect ">"
      let e ← d .unary
      finish .assertion t.start [said, e]
    else fail
  else if t.is "await" && (← isAwait) then
    flawIf !(← context).hasAwait
    bump
    let e ← within (fun c => { c with hasAwait := true }) (d .unary)
    finish .waiting t.start [e]
  else
    let e ← leftHand d
    let after ← peek
    if after.isOneOf ["++", "--"] && !after.newline then
      bump
      takePlace e
      finish .other t.start [e]
    else pure e

/-- The precedence of operators that compare. -/
def comparison : Nat := 8

/-- The precedence of powers, which group to the right. -/
def power : Nat := 12

/-- A `??` must not stand beside `||` or `&&`. -/
def mixesLogic (operator : String) (l r : Tree) : Bool :=
  let isOther := fun (t : Tree) => t.shape == .logical "||" || t.shape == .logical "&&"
  operator == "??" &&
    match r.shape with
    | .logical _ => isOther r
    | _ => isOther l

/-- The node of an operator between two expressions. -/
def operatorNode (operator : String) (start : Nat) (l r : Tree) : P Tree := do
  flawIf (operator == "**" && (l.shape == .unary || l.shape == .waiting))
  flawIf (mixesLogic operator l r)
  let shape :=
    if ["??", "||", "&&"].contains operator then Shape.logical operator
    else if operator == "+" then .sum else .other
  finish shape start [l, r]

/-- Operators that bind tighter than a bound, behind an expression. -/
def operatorsFrom (d : Descent) (bound start : Nat) : (fuel : Nat) → Tree → P Tree
  | 0, _ => fail
  | n + 1, l => do
    if ← isAt ">" then relex Lexer.angle
    let t ← peek
    match t.precedence? with
    | none => pure l
    | some p =>
      if (if p == power then p < bound else p ≤ bound) then pure l
      else if t.is "in" && !(← context).hasIn then pure l
      else if t.isOneOf ["as", "satisfies"] then
        if t.newline then pure l
        else
          flawIf !(← typed)
          bump
          let said ← d .type
          operatorsFrom d bound start n (← finish .cast start [l, said])
      else
        bump
        let r ← d (.operators p)
        operatorsFrom d bound start n (← operatorNode t.text start l r)

/-- An expression of operators that bind tighter than a bound. -/
def operators (d : Descent) (bound : Nat) : P Tree := do
  let t ← peek
  if t.kind == .privateName && (← context).hasIn then
    bump
    expect "in"
    let r ← d (.operators comparison)
    if r.shape == .privateIn then fail
    operatorsFrom d bound t.start (← fuel) (← finish .privateIn t.start [r])
  else
    let l ← unary d
    operatorsFrom d bound t.start (← fuel) l

/-! ## Arrow functions -/

/-- Is what follows an arrow function? -/
inductive Guess where
  | yes
  | no
  | maybe
  deriving DecidableEq, Repr

/-- What follows an opening parenthesis that may start the parameters of an arrow function. -/
def guessInParens : P Guess := do
  let t ← peek
  if t.is ")" then
    bump
    pure (if ← atOneOf ["=>", ":", "\x7b"] then .yes else .no)
  else if t.isOneOf ["[", "\x7b"] then pure .maybe
  else if t.is "..." then
    bump
    let after ← peek
    pure (if after.isName then .yes else if after.isLiteral then .no else .maybe)
  else if t.isWord && modifierWords.contains t.text && t.text != "async" &&
      (← peekNext).isName then
    pure (if (← peekNext).is "as" then .no else .yes)
  else if !t.isName && !t.is "this" then pure .no
  else
    bump
    if ← isAt ":" then pure .yes
    else if ← eat "?" then pure (if ← atOneOf [":", ",", "=", ")"] then .yes else .no)
    else pure (if ← atOneOf [",", "=", ")"] then .maybe else .no)

/-- What follows an opening angle bracket that may start the type parameters of an arrow function. In
markup it has to be told from an element. -/
def guessInAngles : P Guess := do
  let t ← peek
  if !t.isName && !t.is "const" then pure .no
  else if ← hasMarkup then
    let _ ← eat "const"
    bump
    if ← eat "extends" then pure (if ← atOneOf ["=", ">", "/"] then .no else .yes)
    else pure (if ← atOneOf [",", "="] then .yes else .no)
  else pure .maybe

/-- Does an arrow function with parentheses start here? -/
def guessArrow : P Guess := do
  if ← atOneOf ["(", "<", "async"] then
    let guess ← ahead do
      let isAsync ← eat "async"
      let t ← peek
      if isAsync && (t.newline || !t.isOneOf ["(", "<"]) then pure .no
      else
        bump
        if t.is "(" then guessInParens else guessInAngles
    pure (guess.getD .no)
  else pure .no

/-- The parameters of an arrow function, up to its arrow. -/
structure ArrowHead where
  isAsync : Bool
  /-- The parameters with the types around them. -/
  parameters : List Tree
  /-- It has the type of what the function gives. -/
  hasType : Bool

/-- The parameters of an arrow function in parentheses, and its arrow. -/
def arrowHead (d : Descent) : P ArrowHead := do
  let isAsync ← eat "async"
  let inside := fun (c : Context) => { c with hasAwait := c.hasAwait || isAsync }
  let (generics, ps, result) ← within inside do
    let generics ← typeParameters d
    let ps ← parameters d
    pure (generics, ps, ← returnType d)
  flawIf ps.hasThis
  flawIf (← peek).newline
  expect "=>"
  pure ⟨isAsync, generics ++ ps.nodes ++ result, !result.isEmpty⟩

/-- The body of an arrow function. -/
def arrowBody (d : Descent) (isAsync arrowType : Bool) : P Tree := do
  within (fun c => { c with hasAwait := isAsync, hasYield := false }) do
    if ← isAt "\x7b" then d .functionBody
    else
      let start ← startHere
      let e ← d (.assignment arrowType)
      let s ← finish .statement start [e]
      finish .body start [s]

/-- An arrow function behind its head. -/
def arrowFrom (d : Descent) (start : Nat) (h : ArrowHead) (arrowType : Bool) : P Tree := do
  let body ← arrowBody d h.isAsync arrowType
  finish .arrow start (h.parameters ++ [body])

/-- An arrow function with parentheses, if there is one. In the middle of a condition its type must
not take the colon of the condition. -/
def parenthesizedArrow (d : Descent) (arrowType : Bool) : P (Option Tree) := do
  let start ← startHere
  match ← guessArrow with
  | .no => pure none
  | .yes => pure (some (← arrowFrom d start (← arrowHead d) true))
  | .maybe =>
    let before ← get
    match ← attempt (arrowHead d) with
    | none => pure none
    | some h =>
      let f ← arrowFrom d start h arrowType
      if !arrowType && h.hasType && !(← isAt ":") then
        set before
        pure none
      else pure (some f)

/-- A single parameter without parentheses. -/
def parameterOf (t : Tree) : Tree :=
  match t with
  | .node (.reference name) span children => .node (.binding name) span children
  | _ => t

/-- An arrow function with a single parameter, from its arrow on. -/
def simpleArrow (d : Descent) (start : Nat) (isAsync : Bool) (parameter : Tree) (arrowType : Bool) :
    P Tree := do
  flawIf (← peek).newline
  expect "=>"
  arrowFrom d start ⟨isAsync, [parameterOf parameter], false⟩ arrowType

/-- Does an arrow function start here with `async` and a name? -/
def startsAsyncArrow (d : Descent) : P Bool := do
  if ← isAt "async" then
    looks do
      bump
      let t ← peek
      if t.newline || t.is "=>" then pure false
      else
        let e ← d (.operators 0)
        let after ← peek
        pure (e.reference?.isSome && after.is "=>" && !after.newline)
  else pure false

/-! ## Assignments and commas -/

/-- `yield` and what it gives. -/
def yieldExpression (d : Descent) : P Tree := do
  let start ← startHere
  expect "yield"
  let t ← peek
  if t.newline then finish .other start []
  else
    let delegates ← eat "*"
    let t ← peek
    let ends := t.kind == .done ||
      t.isOneOf [";", "\x7d", ")", "]", ":", ",", "in"]
    if ends && !delegates then finish .other start []
    else
      let e ← d (.assignment true)
      finish .other start [e]

/-- What follows the condition of an expression with two branches. -/
def conditional (d : Descent) (start : Nat) (condition : Tree) (arrowType : Bool) : P Tree := do
  if ← eat "?" then
    let yes ← grouped (d (.assignment false))
    expect ":"
    let no ← d (.assignment arrowType)
    finish .other start [condition, yes, no]
  else pure condition

/-- An expression without commas. -/
def assignment (d : Descent) (arrowType : Bool) : P Tree := do
  let start ← startHere
  if (← isAt "yield") && (← context).hasYield then yieldExpression d
  else
    match ← parenthesizedArrow d arrowType with
    | some f => pure f
    | none =>
      if ← startsAsyncArrow d then
        bump
        let e ← operators d 0
        simpleArrow d start true e arrowType
      else
        let l ← operators d 0
        let t ← peek
        if l.reference?.isSome && t.is "=>" then simpleArrow d start false l arrowType
        else if t.isAssignment then
          if t.is "=" then takeTarget l else takePlace l
          bump
          let r ← d (.assignment arrowType)
          finish (.assignment t.text) start [l, r]
        else conditional d start l arrowType

/-- An expression, with commas. -/
def expression (d : Descent) : P Tree := do
  let start ← startHere
  let first ← within (fun c => { c with isDecorator := false }) (d (.assignment true))
  if ← isAt "," then
    let rest ← many (isAt ",") do
      bump
      pure [← d (.assignment true)]
    finish .sequence start (first :: rest)
  else pure first

end BaselineAudit.Script.Parser
