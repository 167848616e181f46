import BaselineAudit.Script.Parser.Type

/-!
# Functions and classes
-/

namespace BaselineAudit.Script.Parser

/-! ## Functions -/

/-- The parameters and the body of a function. -/
structure FunctionParts where
  parameters : Parameters
  body : Option Tree

/-- The children of a function's node. -/
def FunctionParts.nodes (f : FunctionParts) : List Tree := f.parameters.nodes ++ f.body.toList

/-- The parameters and the body of a function. Only with types can the body be missing. -/
def functionParts (d : Descent) (isAsync isGenerator : Bool) : P FunctionParts := do
  let inside := fun (c : Context) =>
    { c with hasIn := true, hasAwait := isAsync, hasYield := isGenerator, isDecorator := false }
  let parts ← within inside do
    let ps ← signature d
    let body ← if ← isAt "\x7b" then pure (some (← d .functionBody)) else pure none
    pure { parameters := ps, body }
  if parts.body.isNone then
    if !(← typed) then fail
    semicolon
  pure parts

/-- The statements of a function. -/
def functionBody (d : Descent) : P Tree := do
  let start ← startHere
  expect "\x7b"
  let inside := fun (c : Context) => { c with hasReturn := true, isDecorator := false }
  let statements ← within inside (upTo "\x7d" (d (.statement false)))
  expect "\x7d"
  finish .body start statements

/-- The name of a function or class, if it has one. -/
def optionalName (c : Context) : P (List Tree) := do
  let t ← peek
  if t.isName then
    checkName t c
    bumpName
    pure [← finish (.binding t.text) t.start []]
  else pure []

/-- A function expression. -/
def functionExpression (d : Descent) : P Tree := do
  let start ← startHere
  let isAsync ← eat "async"
  expect "function"
  let isGenerator ← eat "*"
  let name ← optionalName { ← context with hasAwait := isAsync, hasYield := isGenerator }
  let parts ← functionParts d isAsync isGenerator
  finish .function start (name ++ parts.nodes)

/-- Does a function start here? -/
def atFunction : P Bool := do
  if ← isAt "function" then pure true
  else if ← isAt "async" then
    let next ← peekNext
    pure (next.is "function" && !next.newline)
  else pure false

/-- A function declaration. It has a name unless it is a default export. As a single statement it is a
plain function. -/
def functionDeclaration (d : Descent) (single isDefault : Bool) : P Tree := do
  let start ← startHere
  let isAsync ← eat "async"
  expect "function"
  let isGenerator ← eat "*"
  let name ← optionalName (← context)
  flawIf (name.isEmpty && !isDefault)
  let parts ← functionParts d isAsync isGenerator
  flawIf (single && (isAsync || isGenerator))
  finish .function start (name ++ parts.nodes)

/-- A method behind its key. -/
def method (d : Descent) (isAsync isGenerator : Bool) : P (FunctionParts × Tree) := do
  let start ← startHere
  let parts ← functionParts d isAsync isGenerator
  pure (parts, ← finish .function start parts.nodes)

/-- A method that gives a value has no parameters. -/
def checkGetter (p : Parameters) : P Unit := flawIf (p.count != 0 || p.hasRest)

/-- A method that takes a value has one parameter. -/
def checkSetter (p : Parameters) : P Unit := flawIf (p.count != 1 || p.hasRest)

/-! ## Classes -/

/-- The modifiers of members without types. -/
def plainMemberModifiers : List String := ["static", "async", "accessor"]

/-- The modifiers of fields. -/
def fieldModifiers : List String :=
  accessWords ++ ["static", "abstract", "override", "readonly", "declare", "accessor"]

/-- The modifiers of methods. -/
def methodModifiers : List String := accessWords ++ ["static", "abstract", "override", "async"]

/-- Modifiers that are allowed, and known without types. -/
def checkMemberModifiers (allowed seen : List String) : P Unit := do
  checkModifiers allowed seen
  if !(← typed) then checkModifiers plainMemberModifiers seen

/-- The name of a member is not taken. -/
def checkMemberName (key : Key) (taken : List String) : P Unit :=
  flawIf (!key.computed && key.name.any taken.contains)

/-- A getter or setter behind its word. -/
def accessorMember (d : Descent) (start : Nat) (decs : List Tree) (mods : List String)
    (check : Parameters → P Unit) : P Tree := do
  let key ← memberKey d
  let (parts, f) ← method d false false
  check parts.parameters
  checkMemberModifiers (methodModifiers.erase "async") mods
  checkMemberName key (if mods.contains "static" then ["prototype"] else ["constructor"])
  finish .other start (decs ++ [key.node, f])

/-- A field behind its key. -/
def field (d : Descent) (start : Nat) (decs : List Tree) (mods : List String) (key : Key)
    (optional : Bool) : P Tree := do
  if (← typed) && !optional && (← isAt "!") && !(← peek).newline then bump
  let types ← ascribedType d
  let inside := fun (c : Context) => { c with hasAwait := false, hasYield := false }
  let value ← within inside (initializer d)
  semicolon
  checkMemberModifiers fieldModifiers mods
  checkMemberName key
    (if mods.contains "static" then ["constructor", "prototype"] else ["constructor"])
  finish .other start (decs ++ key.node :: types ++ value)

/-- A field or method. -/
def fieldOrMethod (d : Descent) (start : Nat) (decs : List Tree) (mods : List String) : P Tree := do
  let isGenerator ← eat "*"
  let key ← memberKey d
  let optional ← if ← typed then eat "?" else pure false
  if isGenerator || (← atOneOf ["(", "<"]) then
    let isAsync := mods.contains "async"
    let (_, f) ← method d isAsync isGenerator
    checkMemberModifiers methodModifiers mods
    let isStatic := mods.contains "static"
    checkMemberName key
      (if isStatic then ["prototype"] else if isAsync || isGenerator then ["constructor"] else [])
    finish .other start (decs ++ [key.node, f])
  else field d start decs mods key optional

/-- A block that runs when the class is made. -/
def staticBlock (d : Descent) (decs : List Tree) (mods : List String) : P Tree := do
  flawIf (!decs.isEmpty || !mods.isEmpty)
  expect "static"
  let inside := fun (c : Context) =>
    { c with hasAwait := true, hasYield := false, hasReturn := false }
  within inside (d .block)

/-- A member of a class. -/
def classMember (d : Descent) : P (List Tree) := do
  let start ← startHere
  if ← eat ";" then pure []
  else
    let decs ← decorators d
    let mods ← modifiers true true
    let t ← peek
    let next ← peekNext
    if t.is "static" && next.is "\x7b" then pure [← staticBlock d decs mods]
    else if ← eatModifier "get" then pure [← accessorMember d start decs mods checkGetter]
    else if ← eatModifier "set" then pure [← accessorMember d start decs mods checkSetter]
    else if (← typed) && (← isIndexSignature) then
      checkModifiers ["readonly", "static"] mods
      pure (decs ++ [← indexSignature d])
    else pure [← fieldOrMethod d start decs mods]

/-- A name with dots and its arguments, behind `implements`. -/
def implemented (d : Descent) : P Tree := do
  let start ← startHere
  let name ← referenceName
  let types ← typeName d
  finish .implemented start (name :: types)

/-- Such names with commas between them. -/
def implementedNames (d : Descent) : P (List Tree) := do
  let first ← implemented d
  let rest ← many (isAt ",") do
    bump
    pure [← implemented d]
  pure (first :: rest)

/-- What a class builds on. -/
def heritageFrom (d : Descent) : (fuel : Nat) → (extended implementing : Bool) → P (List Tree)
  | 0, _, _ => fail
  | n + 1, extended, implementing => do
    if ← eat "extends" then
      flawIf (extended || implementing)
      let base ← d .leftHand
      let types ← optionalTypeArguments d
      let others ← many (isAt ",") do
        bump
        flaw
        let other ← d .leftHand
        pure (other :: (← optionalTypeArguments d))
      pure (base :: types ++ others ++ (← heritageFrom d n true implementing))
    else if ← isAt "implements" then
      flawIf (implementing || !(← typed))
      bump
      let names ← implementedNames d
      pure (names ++ (← heritageFrom d n extended true))
    else pure []

/-- The members of a class, in braces. -/
def classBody (d : Descent) : P (List Tree) := do
  expect "\x7b"
  let more : P Bool := do pure !((← atEnd) || (← isAt "\x7d"))
  let members ← within (fun c => { c with hasIn := true, isDecorator := false })
    (many more (classMember d))
  expect "\x7d"
  pure members

/-- A class from its keyword on. -/
def classFrom (d : Descent) (start : Nat) (decs : List Tree) (needsName : Bool) : P Tree := do
  expect "class"
  let name ← if ← isAt "implements" then pure [] else optionalName (← context)
  flawIf (name.isEmpty && needsName)
  let generics ← typeParameters d
  let bases ← heritageFrom d (← fuel) false false
  let members ← classBody d
  finish .classDef start (decs ++ name ++ generics ++ bases ++ members)

end BaselineAudit.Script.Parser
