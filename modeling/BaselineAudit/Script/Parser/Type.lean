import BaselineAudit.Script.Parser.Binding

/-!
# Types

Types are read to find their end, and for the expressions in them: the keys of members, and the names
whose types are meant. A type is a node with what it is made of as children.
-/

namespace BaselineAudit.Script.Parser

/-- Makes a single `<` of a token that starts with it. -/
def splitAngle : P Unit := do
  if ← isAt "<<" then relex Lexer.single

/-- The arguments of a generic type, in angle brackets. -/
def typeArguments (d : Descent) : P (List Tree) := do
  splitAngle
  let (types, _) ← between "<" ">" (d .type)
  flawIf types.isEmpty
  pure types

/-- The same if there are some. -/
def optionalTypeArguments (d : Descent) : P (List Tree) := do
  if (← typed) && (← atOneOf ["<", "<<"]) then typeArguments d else pure []

/-- A parameter of a generic type. -/
def typeParameter (d : Descent) : P Tree := do
  let start ← startHere
  let mods ← modifiers true false
  checkModifiers ["const", "in", "out"] mods
  let name ← bindingName
  let bound ← typeBehind d "extends"
  let value ← typeBehind d "="
  finish .other start (name :: bound ++ value)

/-- The parameters of a generic type, in angle brackets, if there are some. -/
def typeParameters (d : Descent) : P (List Tree) := do
  if (← typed) && (← isAt "<") then
    let (ps, _) ← between "<" ">" (typeParameter d)
    flawIf ps.isEmpty
    pure ps
  else pure []

/-- A type, or a claim about a parameter. -/
def typeOrPredicate (d : Descent) : P Tree := do
  let start ← startHere
  let t ← peek
  let next ← peekNext
  if t.isName && next.is "is" && !next.newline then
    bumpName
    bump
    let claimed ← d .type
    finish .type start [claimed]
  else d .type

/-- The type of what a function gives, behind a colon, if there is one. -/
def returnType (d : Descent) : P (List Tree) := do
  if ← typed then
    if ← eat ":" then pure [← typeOrPredicate d] else pure []
  else pure []

/-- The parameters of a function with the types around them. -/
def signature (d : Descent) : P Parameters := do
  let generics ← typeParameters d
  let ps ← parameters d
  let result ← returnType d
  pure { ps with nodes := generics ++ ps.nodes ++ result }

/-! ## Members of object types -/

/-- The end of a member. -/
def memberEnd : P Unit := do
  if ← eat "," then pure () else semicolon

/-- The start of a signature for keys of a type: a name in brackets with a type. -/
def isIndexSignature : P Bool :=
  looks do
    expect "["
    let t ← peek
    if t.isOneOf ["...", "]"] then pure true
    else
      let isMod := t.isWord && modifierWords.contains t.text
      bump
      if isMod && (← peek).isName then pure true
      else if !isMod && !t.isName then pure false
      else if ← atOneOf [":", ","] then pure true
      else if ← eat "?" then atOneOf [":", ",", "]"]
      else pure false

/-- The name of the keys of a type, and their type. -/
def indexKey (d : Descent) : P Tree := do
  let start ← startHere
  let name ← bindingName
  let types ← ascribedType d
  finish .other start (name :: types)

/-- The keys of a type and their values. -/
def indexParts (d : Descent) : P (List Tree) := do
  let (keys, _) ← between "[" "]" (indexKey d)
  flawIf (keys.length != 1)
  flawIf !(← isAt ":")
  let values ← ascribedType d
  pure (keys ++ values)

/-- A getter or setter behind its word. -/
def accessorParts (d : Descent) (isWrong : Parameters → Bool) : P (List Tree) := do
  let key ← propertyKey d
  let ps ← signature d
  flawIf (isWrong ps)
  pure (key.node :: ps.nodes)

/-- A property or method. -/
def propertyParts (d : Descent) : P (List Tree) := do
  let key ← propertyKey d
  let _ ← eat "?"
  if ← atOneOf ["(", "<"] then pure (key.node :: (← signature d).nodes)
  else pure (key.node :: (← ascribedType d))

/-- A member of an object type up to its end. -/
def memberParts (d : Descent) : P (List Tree) := do
  let next ← peekNext
  if ← atOneOf ["(", "<"] then pure (← signature d).nodes
  else if (← isAt "new") && next.isOneOf ["(", "<"] then
    bump
    pure (← signature d).nodes
  else
    let mods ← modifiers false false
    if ← eatModifier "get" then accessorParts d fun ps => ps.count != 0
    else if ← eatModifier "set" then accessorParts d fun ps => ps.count != 1 || ps.hasRest
    else
      checkModifiers ["readonly"] mods
      if ← isIndexSignature then indexParts d else propertyParts d

/-- A member that has its parts read. -/
def memberFrom (parts : P (List Tree)) : P Tree := do
  let start ← startHere
  let parts ← parts
  memberEnd
  finish .other start parts

/-- A signature for keys of a type. -/
def indexSignature (d : Descent) : P Tree := memberFrom (indexParts d)

/-- The members of an object type, in braces. -/
def typeMembers (d : Descent) : P (List Tree) := do
  expect "\x7b"
  let members ← upTo "\x7d" (memberFrom (memberParts d))
  expect "\x7d"
  pure members

/-- The start of a type that maps keys to types. -/
def isMappedType : P Bool :=
  looks do
    expect "\x7b"
    if ← atOneOf ["+", "-"] then
      bump
      isAt "readonly"
    else
      let _ ← eat "readonly"
      expect "["
      if (← peek).isName then
        bump
        isAt "in"
      else pure false

/-- A mark that may have a sign in front. -/
def signedMark (mark : String) : P Unit := do
  if ← atOneOf ["+", "-"] then
    bump
    expect mark
  else
    let _ ← eat mark

/-- A type that maps keys to types. -/
def mappedType (d : Descent) : P (List Tree) := do
  expect "\x7b"
  signedMark "readonly"
  expect "["
  let key ← bindingName
  expect "in"
  let keys ← d .type
  let names ← typeBehind d "as"
  expect "]"
  signedMark "?"
  let values ← typeBehind d ":"
  semicolon
  expect "\x7d"
  pure (key :: keys :: names ++ values)

/-! ## Tuples, templates, names -/

/-- An item of a tuple, which may have a name. -/
def tupleItem (d : Descent) : P Tree := do
  let named ← looks do
    let _ ← eat "..."
    if (← peek).isWord then
      bump
      if ← eat "?" then isAt ":" else isAt ":"
    else pure false
  let isRest ← eat "..."
  if named then
    let _ ← anyWord
    if ← eat "?" then flawIf isRest
    expect ":"
  d .type

/-- A template with types in it, behind its first piece. -/
def templateTypesFrom (d : Descent) : (fuel : Nat) → P (List Tree)
  | 0 => fail
  | n + 1 => do
    let first ← d .type
    if ← isAt "\x7d" then relex Lexer.templateTail
    match (← peek).kind with
    | .template false ends _ =>
      bump
      if ends then pure [first] else pure (first :: (← templateTypesFrom d n))
    | _ => fail

/-- The names behind the dots of a name. -/
def dottedNamesFrom : (fuel : Nat) → P Unit
  | 0 => fail
  | n + 1 => do
    if ← eat "." then
      if (← peek).kind == .privateName then bump
      else
        let _ ← anyWord
      dottedNamesFrom n
    else pure ()

/-- The names behind the dots of a name, and its arguments on the same line. -/
def typeName (d : Descent) : P (List Tree) := do
  dottedNamesFrom (← fuel)
  if (← peek).newline then pure [] else optionalTypeArguments d

/-- Types that have a word of their own. In front of a dot it is a name. -/
def typeWords : List String :=
  ["any", "bigint", "boolean", "intrinsic", "never", "number", "object", "string", "symbol",
    "undefined", "unknown"]

/-- A type by its name. -/
def namedType (d : Descent) : P (List Tree) := do
  let t ← peek
  let next ← peekNext
  if t.isWord then
    bumpName
    let name ← finish (.reference t.text) t.start []
    let types ← typeName d
    pure (if typeWords.contains t.text && !next.is "." then types else name :: types)
  else fail

/-- What is said about the script that exports a type, if something is. -/
def importOptions (d : Descent) : P (List Tree) := do
  if ← eat "," then
    let options ← if ← isAt "\x7b" then pure [← d (.assignment true)] else pure []
    let _ ← eat ","
    pure options
  else pure []

/-- A type that another script exports, behind `import`. -/
def importType (d : Descent) : P (List Tree) := do
  expect "import"
  expect "("
  let source ← d .type
  let options ← importOptions d
  expect ")"
  pure (source :: options ++ (← typeName d))

/-- The type of a value, behind `typeof`. -/
def valueType (d : Descent) : P (List Tree) := do
  if ← isAt "import" then importType d
  else if ← eat "this" then typeName d
  else
    let name ← referenceName
    pure (name :: (← typeName d))

/-- A type that is a single token. -/
def tokenType : P (List Tree) := do
  bump
  pure []

/-- A type that starts at the current token, without what may stand behind it. -/
def simpleType (d : Descent) : P (List Tree) := do
  let t ← peek
  let next ← peekNext
  match t.kind with
  | .string | .number | .bigint => tokenType
  | .template true ends _ =>
    bump
    if ends then pure [] else templateTypesFrom d (← fuel)
  | .punct =>
    match t.text with
    | "\x7b" => if ← isMappedType then mappedType d else typeMembers d
    | "[" => do pure (← between "[" "]" (tupleItem d)).1
    | "(" =>
      bump
      let inner ← d .type
      expect ")"
      pure [inner]
    | "-" =>
      bump
      if (← peek).kind == .number || (← peek).kind == .bigint then tokenType else fail
    | "?" =>
      bump
      if (← atOneOf [",", "\x7d", ")", ">", "=", "|"]) then pure [] else pure [← d .type]
    | "!" =>
      bump
      pure [← d .typeOperand]
    | "*" => tokenType
    | _ => fail
  | .word =>
    match t.text with
    | "true" | "false" | "null" | "void" => tokenType
    | "this" =>
      bump
      if (← peek).newline then pure [] else typeBehind d "is"
    | "typeof" =>
      bump
      valueType d
    | "import" => importType d
    | "asserts" =>
      if (next.isName || next.is "this") && !next.newline then
        bump
        bump
        typeBehind d "is"
      else namedType d
    | _ => namedType d
  | _ => fail

/-! ## Operators between types -/

/-- Can a type start here? -/
def startsType : P Bool := do
  let t ← peek
  pure (t.isLiteral || t.startsTemplate || t.isName ||
    t.isOneOf ["void", "null", "this", "typeof", "\x7b", "[", "<", "|", "&", "new", "*", "?", "!",
      "...", "import", "(", "-", "function"])

/-- What may stand behind a type: brackets of arrays and indices. -/
def typeSuffixesFrom (d : Descent) : (fuel : Nat) → P (List Tree)
  | 0 => fail
  | n + 1 => do
    let t ← peek
    if t.newline then pure []
    else if t.is "!" then
      bump
      typeSuffixesFrom d n
    else if t.is "?" then
      let starts ← looks do
        bump
        startsType
      if starts then pure []
      else
        bump
        typeSuffixesFrom d n
    else if t.is "[" then
      bump
      let index ← if ← isAt "]" then pure [] else pure [← d .type]
      expect "]"
      pure (index ++ (← typeSuffixesFrom d n))
    else pure []

/-- In types with conditions. -/
def withConditions {α : Type} (p : P α) : P α :=
  within (fun c => { c with isConditionless := false }) p

/-- In types without conditions. -/
def withoutConditions {α : Type} (p : P α) : P α :=
  within (fun c => { c with isConditionless := true }) p

/-- The bound of an inferred type, unless it is the condition of a type. -/
def inferBound (d : Descent) : P (List Tree) := do
  if ← isAt "extends" then
    let conditionless := (← context).isConditionless
    let bound ← attempt do
      bump
      let bound ← withoutConditions (d .type)
      if !conditionless && (← isAt "?") then fail else pure bound
    pure bound.toList
  else pure []

/-- A type with the operators in front of it. -/
def typeOperand (d : Descent) : P Tree := do
  let start ← startHere
  if ← atOneOf ["keyof", "unique", "readonly"] then
    bump
    let operand ← d .typeOperand
    finish .type start [operand]
  else if ← eat "infer" then
    let name ← bindingName
    let bound ← inferBound d
    finish .type start (name :: bound)
  else
    let parts ← withConditions do
      let first ← simpleType d
      let rest ← typeSuffixesFrom d (← fuel)
      pure (first ++ rest)
    finish .type start parts

/-- Types with an operator between them, which may also stand in front. -/
def typesBetween (operator : String) (operand : P (List Tree)) : P (List Tree) := do
  let _ ← eat operator
  let first ← operand
  let rest ← many (isAt operator) do
    bump
    operand
  pure (first ++ rest)

/-- The start of the type of a function. -/
def startsFunctionType (d : Descent) : P Bool := do
  let t ← peek
  if t.is "<" || t.is "new" then pure true
  else if t.is "abstract" then pure ((← peekNext).is "new")
  else if t.is "(" then
    looks do
      bump
      if ← atOneOf [")", "..."] then pure true
      else
        let flawedBefore := (← get).flawed
        let _ ← modifiers false false
        if (← peek).isName || (← isAt "this") then bump
        else if ← atOneOf ["[", "\x7b"] then
          let _ ← d .pattern
        else fail
        if (← get).flawed && !flawedBefore then pure false
        else if ← atOneOf [":", ",", "?", "="] then pure true
        else if ← eat ")" then isAt "=>"
        else pure false
  else pure false

/-- The type of a function. -/
def functionType (d : Descent) : P (List Tree) := do
  let _ ← eat "abstract"
  let isNew ← eat "new"
  let generics ← typeParameters d
  let ps ← parameters d
  flawIf (isNew && ps.hasThis)
  expect "=>"
  let result ← typeOrPredicate d
  pure (generics ++ ps.nodes ++ [result])

/-- The condition behind a type, and the types that it decides between, if there is one. -/
def typeBranches (d : Descent) : P (List Tree) := do
  let t ← peek
  if !(← context).isConditionless && !t.newline && t.is "extends" then
    bump
    let bound ← withoutConditions (d .type)
    expect "?"
    let yes ← withConditions (d .type)
    expect ":"
    let no ← withConditions (d .type)
    pure [bound, yes, no]
  else pure []

/-- A type. -/
def type (d : Descent) : P Tree := do
  let start ← startHere
  if ← startsFunctionType d then
    let parts ← functionType d
    finish .type start parts
  else
    let types ← typesBetween "|" (typesBetween "&" do pure [← d .typeOperand])
    let branches ← typeBranches d
    finish .type start (types ++ branches)

/-- Can the arguments of a generic type in an expression end in front of the current token? -/
def canFollowTypeArguments : P Bool := do
  let t ← peek
  let c ← context
  if t.is "(" || t.startsTemplate then pure true
  else if t.isOneOf ["<", ">", "+", "-"] then pure false
  else
    let isOperator := t.precedence?.isSome && (c.hasIn || !t.is "in")
    let next ← peekNext
    let starts := t.isLiteral || t.isName || t.startsTemplate || t.kind == .privateName ||
      t.isOneOf ["this", "super", "(", "[", "\x7b", "function", "class", "new", "/", "/=", "+", "-",
        "~", "!", "delete", "typeof", "void", "++", "--", "<", "@"] ||
      (t.is "import" && next.isOneOf ["(", "<", "."])
    pure (t.newline || isOperator || !starts)

/-- The arguments of a generic value, if that is what stands here. -/
def typeArgumentsInExpression (d : Descent) : P (Option (List Tree)) :=
  attempt do
    splitAngle
    expect "<"
    let (types, _) ← commas ">" (d .type)
    flawIf types.isEmpty
    if !(← isAt ">") then fail
    relex Lexer.angle
    if ← isAt ">=" then fail
    relex Lexer.single
    expect ">"
    if ← canFollowTypeArguments then pure types else fail

end BaselineAudit.Script.Parser
