import BaselineAudit.Script.Number
import BaselineAudit.Script.Parser.Basic

/-!
# Names, keys, patterns and parameters
-/

namespace BaselineAudit.Script.Parser

/-! ## Modifiers -/

/-- Words that can stand in front of a declaration or member. -/
def modifierWords : List String :=
  ["abstract", "accessor", "async", "const", "declare", "in", "out", "override", "private",
    "protected", "public", "readonly", "static"]

/-- The modifiers that say from where a member can be used. -/
def accessWords : List String := ["private", "protected", "public"]

/-- A token that can stand behind a modifier. -/
def canFollowModifier (t : Token) : Bool :=
  t.isLiteralName || t.kind == .privateName || t.isOneOf ["[", "\x7b", "*", "..."]

/-- Is the current word in front of a name? Only some words may end their line. -/
def isModifier : P Bool := do
  let t ← peek
  let next ← peekNext
  pure (canFollowModifier next && (!next.newline || t.isOneOf ["static", "get", "set"]))

/-- Takes a word that stands in front of a name. -/
def eatModifier (word : String) : P Bool := do
  if (← isAt word) && (← isModifier) then bump; pure true else pure false

/-- The modifiers in front of which a modifier has to stand. -/
def modifiersBehind (word : String) : List String :=
  if accessWords.contains word then
    accessWords ++ ["override", "static", "accessor", "readonly", "async"]
  else
    match word with
    | "static" => ["override", "accessor", "readonly", "async"]
    | "override" => ["accessor", "readonly", "async"]
    | _ => []

/-- Is a modifier at odds with those in front of it? -/
def isMisplaced (seen : List String) (word : String) : Bool :=
  seen.contains word || seen.any (modifiersBehind word).contains

/-- Modifiers behind those already seen. -/
def modifiersFrom (withConst inClass : Bool) : (fuel : Nat) → (seen : List String) → P (List String)
  | 0, _ => fail
  | n + 1, seen => do
    let t ← peek
    let next ← peekNext
    let isBlock := inClass && t.is "static" && next.is "\x7b"
    let again := t.is "static" && seen.contains "static"
    if t.isWord && modifierWords.contains t.text && (withConst || t.text != "const") &&
        !isBlock && !again && (← isModifier) then
      flawIf (isMisplaced seen t.text)
      bump
      modifiersFrom withConst inClass n (seen ++ [t.text])
    else pure seen

/-- The modifiers in front of a member. -/
def modifiers (withConst inClass : Bool) : P (List String) := do
  modifiersFrom withConst inClass (← fuel) []

/-- Only some modifiers are in place. -/
def checkModifiers (allowed seen : List String) : P Unit :=
  flawIf (seen.any fun w => !allowed.contains w)

/-! ## Keys -/

/-- The key of a property. -/
structure Key where
  /-- Its name, if it is known. -/
  name : Option String
  node : Tree
  /-- The key is a word. -/
  isWord : Bool := false
  computed : Bool := false

/-- The name that an expression in brackets gives to a property. -/
def computedName? (t : Tree) : Option String :=
  match t.shape with
  | .string value => some value
  | .number literal => some (Number.text literal)
  | .bigint literal => some (Number.bigText literal)
  | .null => some "null"
  | .regex literal => some literal
  | .template [piece] => piece.cooked
  | _ => none

/-- The key of a property. -/
def propertyKey (d : Descent) : P Key := do
  let t ← peek
  if t.is "[" then
    bump
    let e ← allowingIn (d (.assignment true))
    expect "]"
    pure { name := computedName? e, node := e, computed := true }
  else if t.isWord then
    bumpName
    pure { name := some t.text, node := ← finish .other t.start [], isWord := true }
  else if t.kind == .string then
    bump
    pure { name := some t.text, node := ← finish .other t.start [] }
  else if t.kind == .number then
    bump
    pure { name := some (Number.text t.text), node := ← finish .other t.start [] }
  else if t.kind == .bigint then
    bump
    pure { name := some (Number.bigText t.text), node := ← finish .other t.start [] }
  else fail

/-- The key of a member of a class, which may be private. -/
def memberKey (d : Descent) : P Key := do
  let t ← peek
  if t.kind == .privateName then
    flawIf (t.text == "constructor")
    bump
    pure { name := none, node := ← finish .other t.start [] }
  else propertyKey d

/-! ## Patterns -/

/-- The value behind a `=`, if there is one. -/
def initializer (d : Descent) : P (List Tree) := do
  if ← eat "=" then pure [← allowingIn (d (.assignment true))] else pure []

/-- A pattern with a value in case there is none. -/
def patternWithDefault (d : Descent) : P Tree := do
  let start ← startHere
  let p ← d .pattern
  let value ← initializer d
  if value.isEmpty then pure p else finish .pattern start (p :: value)

/-- The rest of a pattern, which has no value of its own. -/
def restPattern (d : Descent) : P Tree := do
  let start ← startHere
  expect "..."
  let p ← d .pattern
  let optional ← if ← typed then eat "?" else pure false
  flawIf optional
  let types ← ascribedType d
  let value ← initializer d
  flawIf !value.isEmpty
  finish .pattern start (p :: types ++ value)

/-- Items with commas between them, the last of which may be a rest. -/
def withRestFrom (close : String) (item rest : P Tree) : (fuel : Nat) → (seen : Bool) →
    P (List Tree × Bool)
  | 0, _ => fail
  | n + 1, seen => do
    if (← isAt close) || (← atEnd) then pure ([], seen)
    else
      flawIf seen
      let isRest ← isAt "..."
      let first ← if isRest then rest else item
      let seen := seen || isRest
      if ← isAt close then pure ([first], seen)
      else
        expect ","
        if ← isAt close then
          flawIf (seen && !(← context).isAmbient)
          pure ([first], seen)
        else
          let (more, seen) ← withRestFrom close item rest n seen
          pure (first :: more, seen)

/-- Items up to a token, and whether the last one is a rest. -/
def withRest (close : String) (item rest : P Tree) : P (List Tree × Bool) := do
  withRestFrom close item rest (← fuel) false

/-- An item of an array pattern, which may be left out. -/
def arrayItem (d : Descent) : P Tree := do
  if ← isAt "," then finish .hole (← startHere) [] else patternWithDefault d

/-- A property of an object pattern. -/
def propertyPattern (d : Descent) : P Tree := do
  let t ← peek
  let key ← propertyKey d
  if ← eat ":" then finish .pattern t.start [key.node, ← patternWithDefault d]
  else if key.isWord && t.isName then
    checkName t (← context)
    let name ← finish (.binding t.text) t.start []
    finish .pattern t.start (name :: (← initializer d))
  else fail

/-- The rest of an object pattern is a name. -/
def propertyRest (d : Descent) : P Tree := do
  let next ← peekNext
  flawIf !next.isName
  restPattern d

/-- A name or pattern that is declared. -/
def pattern (d : Descent) : P Tree := do
  let start ← startHere
  if ← eat "\x7b" then
    let (items, _) ← withRest "\x7d" (propertyPattern d) (propertyRest d)
    expect "\x7d"
    finish .pattern start items
  else if ← eat "[" then
    let (items, _) ← withRest "]" (arrayItem d) (restPattern d)
    expect "]"
    finish .pattern start items
  else bindingName

/-! ## Decorators and parameters -/

/-- Decorators in front of a class, member or parameter. -/
def decorators (d : Descent) : P (List Tree) :=
  many (isAt "@") do
    bump
    pure [← within (fun c => { c with isDecorator := true }) (d .leftHand)]

/-- The parameters of a function. -/
structure Parameters where
  /-- The parameters and their types, and the types around them. -/
  nodes : List Tree
  /-- How many there are, without `this` and the rest. -/
  count : Nat
  hasRest : Bool
  hasThis : Bool

/-- The modifiers of parameters that are also members. -/
def parameterModifiers : List String := accessWords ++ ["readonly", "override"]

/-- A parameter. -/
def parameter (d : Descent) : P Tree := do
  let start ← startHere
  let decs ← decorators d
  let mods ← modifiers false false
  checkModifiers (if ← typed then parameterModifiers else []) mods
  let p ← d .pattern
  if ← typed then
    let _ ← eat "?"
  let types ← ascribedType d
  finish .pattern start (decs ++ p :: types ++ (← initializer d))

/-- A parameter for all that is left. -/
def restParameter (d : Descent) : P Tree := restPattern d

/-- The type of `this`, and the comma behind it. -/
def receiverType (d : Descent) : P (List Tree) := do
  bump
  let types ← ascribedType d
  if !(← isAt ")") then expect ","
  pure types

/-- The parameters of a function, in parentheses. -/
def parameters (d : Descent) : P Parameters := do
  expect "("
  let hasThis ← if ← typed then isAt "this" else pure false
  let receiver ← if hasThis then receiverType d else pure []
  let (nodes, hasRest) ← withRest ")" (parameter d) (restParameter d)
  expect ")"
  let count := nodes.length - (if hasRest then 1 else 0)
  pure { nodes := receiver ++ nodes, count, hasRest, hasThis }

end BaselineAudit.Script.Parser
