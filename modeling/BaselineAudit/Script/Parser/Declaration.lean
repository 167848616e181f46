import BaselineAudit.Script.Parser.Function

/-!
# Declarations

Variables, and the declarations that only scripts with types have.
-/

namespace BaselineAudit.Script.Parser

/-! ## Variables -/

/-- How variables are declared. -/
inductive VariableKind where
  | plain
  | const
  /-- Released at the end of the block. -/
  | resource
  deriving DecidableEq, Repr

/-- A name, and no pattern. -/
def isBinding (t : Tree) : Bool :=
  match t.shape with
  | .binding _ => true
  | _ => false

/-- A variable needs a value if it is constant or a pattern, unless a loop gives it one. -/
def checkValue (kind : VariableKind) (declarator : Tree) : P Unit := do
  if !(← context).isAmbient then
    match declarator with
    | .node (.declarator false) _ (name :: _) => flawIf (kind != .plain || !isBinding name)
    | _ => pure ()

/-- A variable. -/
def declarator (d : Descent) (kind : VariableKind) (inLoop : Bool) : P Tree := do
  let start ← startHere
  let name ← d .pattern
  flawIf (kind == .resource && !isBinding name)
  if ← typed then
    if (← isAt "!") && isBinding name && !(← peek).newline then bump
    if ← eat "?" then flaw
  let types ← ascribedType d
  let value ← if ← eat "=" then pure [← d (.assignment true)] else pure []
  let node ← finish (.declarator !value.isEmpty) start (name :: types ++ value)
  if !inLoop then checkValue kind node
  pure node

/-- Variables behind their keyword, which starts at `start`. -/
def variablesFrom (d : Descent) (start : Nat) (kind : VariableKind) (inLoop : Bool) : P Tree := do
  let first ← declarator d kind inLoop
  let rest ← many (isAt ",") do
    bump
    pure [← declarator d kind inLoop]
  if !inLoop then semicolon
  finish (.variableList (kind == .const)) start (first :: rest)

/-- Variables from their keyword on. -/
def variableList (d : Descent) (inLoop : Bool) : P Tree := do
  let start ← startHere
  let kind := if ← isAt "const" then VariableKind.const else .plain
  bump
  variablesFrom d start kind inLoop

/-- Is `using` a keyword here? A name stands behind it on the same line. -/
def isUsing : P Bool := do
  let next ← peekNext
  pure ((next.isName || next.is "\x7b") && !next.newline)

/-- Is `await` followed by `using` and a name? -/
def isAwaitUsing : P Bool :=
  looks do
    bump
    let t ← peek
    if t.is "using" && !t.newline then isUsing else pure false

/-- Variables that are released at the end of the block. -/
def usingVariables (d : Descent) (inLoop : Bool) : P Tree := do
  let start ← startHere
  if ← isAt "await" then
    flawIf !(← context).hasAwait
    bump
  expect "using"
  variablesFrom d start .resource inLoop

/-! ## Types -/

/-- The names behind a word, if it is there. -/
def namesBehind (d : Descent) (word : String) : P (List Tree) := do
  if ← eat word then implementedNames d else pure []

/-- An interface. It builds on other ones and implements none. -/
def interfaceDeclaration (d : Descent) : P Tree := do
  let start ← startHere
  expect "interface"
  let name ← bindingName
  let generics ← typeParameters d
  let bases ← namesBehind d "extends"
  let others ← namesBehind d "implements"
  flawIf !others.isEmpty
  let members ← typeMembers d
  finish .interface start (name :: generics ++ bases ++ others ++ members)

/-- A name for a type. -/
def typeDeclaration (d : Descent) : P Tree := do
  let start ← startHere
  expect "type"
  let name ← bindingName
  let generics ← typeParameters d
  expect "="
  let named ← d .type
  semicolon
  finish .typeAlias start (name :: generics ++ [named])

/-- A member of an enumeration. Its name is a word or a string. -/
def enumMember (d : Descent) : P Tree := do
  let t ← peek
  let key ← propertyKey d
  let isText := match key.node.shape with
    | .string _ => true
    | .template [_] => true
    | _ => false
  flawIf (t.kind == .number || t.kind == .bigint || (key.computed && !isText))
  finish .other t.start (← initializer d)

/-- An enumeration. -/
def enumDeclaration (d : Descent) : P Tree := do
  let start ← startHere
  expect "enum"
  let _ ← bindingName
  let (members, _) ← between "\x7b" "\x7d" (enumMember d)
  finish .other start members

/-- A namespace, or a module with a string for its name. -/
def namespaceDeclaration (d : Descent) : P Tree := do
  let start ← startHere
  bump
  if (← peek).kind == .string then
    bump
    if ← isAt "\x7b" then finish .other start [← d .block]
    else
      semicolon
      finish .other start []
  else
    let _ ← bindingName
    let _ ← many (isAt ".") do
      bump
      let _ ← bindingName
      pure []
    let body ← d .block
    finish .other start [body]

/-- Additions to the global names. -/
def globalDeclaration (d : Descent) : P Tree := do
  let start ← startHere
  expect "global"
  let body ← d .block
  finish .other start [body]

/-- A name for a module or a part of one, behind `import` and the name. -/
def importEquals (start : Nat) : P Tree := do
  expect "="
  let next ← peekNext
  if (← isAt "require") && next.is "(" then
    bump
    bump
    let _ ← stringLiteral
    expect ")"
    semicolon
    finish .statement start []
  else
    let name ← referenceName
    dottedNamesFrom (← fuel)
    semicolon
    finish .statement start [name]

/-- Words in front of declarations. -/
def declarationWords : List String :=
  ["abstract", "accessor", "declare", "override", "private", "protected", "public", "readonly",
    "static"]

/-- The modifiers in front of a declaration. -/
def declarationModifiersFrom : (fuel : Nat) → P (List String)
  | 0 => fail
  | n + 1 => do
    let t ← peek
    if t.isWord && declarationWords.contains t.text && (← isModifier) then
      bump
      pure (t.text :: (← declarationModifiersFrom n))
    else pure []

/-- A declaration behind its modifiers. -/
def declarationFrom (d : Descent) (start : Nat) (decs : List Tree) (mods : List String) :
    P Tree := do
  let t ← peek
  let next ← peekNext
  match t.kind, t.text with
  | .word, "var" | .word, "let" => variableList d false
  | .word, "const" =>
    if (← typed) && next.is "enum" then
      bump
      enumDeclaration d
    else variableList d false
  | .word, "class" =>
    checkModifiers ["declare", "abstract"] mods
    classFrom d start decs true
  | .word, "interface" => if ← typed then interfaceDeclaration d else fail
  | .word, "type" => if ← typed then typeDeclaration d else fail
  | .word, "enum" => if ← typed then enumDeclaration d else fail
  | .word, "namespace" | .word, "module" => if ← typed then namespaceDeclaration d else fail
  | .word, "global" => if ← typed then globalDeclaration d else fail
  | _, _ => if ← atFunction then functionDeclaration d false false else fail

/-- A declaration with its modifiers. What is declared to exist elsewhere needs no content. -/
def declaration (d : Descent) (decs : List Tree) : P Tree := do
  let start ← startHere
  let mods ← if ← typed then declarationModifiersFrom (← fuel) else pure []
  checkModifiers ["declare", "abstract"] mods
  flawIf (mods.contains "abstract" && !(← isAt "class"))
  let ambient := mods.contains "declare"
  within (fun c => { c with isAmbient := c.isAmbient || ambient })
    (declarationFrom d start decs mods)

/-- Does a declaration start here? -/
def startsDeclarationFrom : (fuel : Nat) → P Bool
  | 0 => fail
  | n + 1 => do
    let t ← peek
    let next ← peekNext
    if t.isOneOf ["var", "let", "const", "function", "class", "enum"] then pure true
    else if t.isOneOf ["interface", "type"] then pure (next.isName && !next.newline)
    else if t.isOneOf ["module", "namespace"] then
      pure ((next.isName || next.kind == .string) && !next.newline)
    else if t.is "global" then pure (next.isOneOf ["\x7b", "export"] || (next.isWord && !next.isKeyword))
    else if t.is "import" then
      pure (next.kind == .string || next.isName || next.isOneOf ["*", "\x7b"])
    else if t.is "static" then
      bump
      startsDeclarationFrom n
    else if t.isOneOf
        ["abstract", "accessor", "async", "declare", "private", "protected", "public", "readonly"] then
      if next.newline then pure false
      else
        bump
        startsDeclarationFrom n
    else pure false

/-- The same without going on. -/
def startsDeclaration : P Bool := do
  let n ← fuel
  looks (startsDeclarationFrom n)

end BaselineAudit.Script.Parser
