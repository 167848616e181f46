import BaselineAudit.Script.Parser.Declaration

/-!
# Imports and exports
-/

namespace BaselineAudit.Script.Parser

/-! ## Names of imports and exports -/

/-- The name of something that is imported or exported: a word or a string. -/
def moduleName : P Token := do
  let t ← peek
  if t.isWord then
    bumpName
    pure t
  else if t.kind == .string then
    bump
    pure t
  else fail

/-- Can the current token be such a name? -/
def atModuleName : P Bool := do
  let t ← peek
  pure (t.isWord || t.kind == .string)

/-- An imported or exported name, and the name that it has on the other side. -/
structure Specifier where
  name : Token
  other : Token

/-- A name and what is said behind `as`. -/
def aliased (name : Token) : P Specifier := do
  if ← eat "as" then pure ⟨name, ← moduleName⟩ else pure ⟨name, name⟩

/-- An imported or exported name. With types, `type` in front of it is no name, unless `as` makes it
one. -/
def specifier : P Specifier := do
  let first ← moduleName
  if !(first.is "type" && (← typed)) then aliased first
  else if ← isAt "as" then
    let asWord ← moduleName
    if ← isAt "as" then
      let second ← moduleName
      if ← atModuleName then pure ⟨asWord, ← moduleName⟩ else pure ⟨first, second⟩
    else if ← atModuleName then pure ⟨first, ← moduleName⟩
    else pure ⟨asWord, asWord⟩
  else if ← atModuleName then aliased (← moduleName)
  else pure ⟨first, first⟩

/-- Names in braces. -/
def specifiersFrom : (fuel : Nat) → P (List Specifier)
  | 0 => fail
  | n + 1 => do
    if ← eat "\x7d" then pure []
    else
      let first ← specifier
      if ← eat "\x7d" then pure [first]
      else
        expect ","
        pure (first :: (← specifiersFrom n))

/-- Names in braces. -/
def specifiers : P (List Specifier) := do
  expect "\x7b"
  specifiersFrom (← fuel)

/-! ## Attributes -/

/-- What is said about an imported module, behind the names seen so far. -/
def importAttributesFrom : (fuel : Nat) → (seen : List String) → P Unit
  | 0, _ => fail
  | n + 1, seen => do
    if ← eat "\x7d" then pure ()
    else
      let key ← moduleName
      flawIf (seen.contains key.text)
      expect ":"
      let _ ← stringLiteral
      if ← eat "\x7d" then pure ()
      else
        expect ","
        importAttributesFrom n (key.text :: seen)

/-- What is said about an imported module, if something is. -/
def importAttributes : P Unit := do
  let t ← peek
  if t.is "with" || (t.is "assert" && !t.newline) then
    bump
    expect "\x7b"
    importAttributesFrom (← fuel) []

/-- The module that names come from. -/
def moduleSource : P Unit := do
  let _ ← stringLiteral
  importAttributes
  semicolon

/-! ## Imports -/

/-- The local name of an import can be declared. -/
def checkImport (s : Specifier) : P Unit := do
  flawIf !s.other.isName
  checkName s.other (← context)

/-- All names of a module under one. -/
def importAll : P Unit := do
  expect "*"
  expect "as"
  let _ ← bindingName

/-- Names in braces. -/
def importNames : P Unit := do
  for s in ← specifiers do
    checkImport s

/-- What is imported beside the default, and from where. -/
def importRest (hasDefault : Bool) : P Unit := do
  if hasDefault then
    if ← eat "," then
      if ← isAt "*" then importAll else importNames
  else if ← isAt "*" then importAll
  else importNames
  expect "from"
  moduleSource

/-- Is `type` behind `import` a word about the import, and not a name? -/
def isTypeImport : P Bool := do
  let t ← peek
  let next ← peekNext
  pure ((!t.is "from" || next.isOneOf ["from", "="]) && (t.isName || t.isOneOf ["*", "\x7b"]))

/-- Is `source` behind `import` a word about the import, and not a name? -/
def isSourceImport : P Bool := do
  let t ← peek
  pure (t.isName && (!t.is "from" || (← peekNext).is "from"))

/-- The default name of an import, if there is one. -/
def importDefault : P Bool := do
  if (← peek).isName then
    let _ ← bindingName
    pure true
  else pure false

/-- An import. -/
def importDeclaration : P Tree := do
  let start ← startHere
  expect "import"
  if (← peek).kind == .string then
    moduleSource
    finish .statement start []
  else
    let first ← peek
    let named ← importDefault
    let hasDefault ←
      if first.is "type" && (← typed) && (← isTypeImport) then importDefault
      else if first.is "source" && (← isSourceImport) then importDefault
      else if first.is "defer" && (← isAt "*") then pure false
      else pure named
    if hasDefault && (← typed) && (← isAt "=") then importEquals start
    else
      importRest hasDefault
      finish .statement start []

/-! ## Exports -/

/-- A name is exported, once. With types a name may be exported again. -/
def exportName (name : String) : P Unit := do
  let s ← get
  flawIf (!s.dialect.typed && s.exported.contains name)
  modify fun s => { s with exported := name :: s.exported }

mutual

/-- The names in a pattern. -/
def patternNames : Tree → List String
  | .node (.binding name) _ _ => [name]
  | .node .pattern _ parts => patternNamesOfAll parts
  | _ => []

/-- The names in patterns. -/
def patternNamesOfAll : List Tree → List String
  | [] => []
  | t :: rest => patternNames t ++ patternNamesOfAll rest

end

/-- The names that a declaration declares. -/
def declaredNames : Tree → List String
  | .node (.variableList _) _ ds => ds.flatMap fun t => (t.children.take 1).flatMap patternNames
  | .node .function _ parts => (parts.take 1).flatMap patternNames
  | .node .classDef _ parts => ((parts.filter isBinding).take 1).flatMap patternNames
  | _ => []

/-- The default export. -/
def exportDefault (d : Descent) (start : Nat) (decs : List Tree) : P Tree := do
  expect "default"
  exportName "default"
  let decs ← if decs.isEmpty then decorators d else pure decs
  let here ← startHere
  let next ← peekNext
  if ← isAt "class" then finish .exportDefault start [← classFrom d here decs false]
  else if (← typed) && (← isAt "abstract") && next.is "class" && !next.newline then
    bump
    finish .exportDefault start [← classFrom d here decs false]
  else if (← typed) && (← isAt "interface") && next.isName && !next.newline then
    finish .exportDefault start [← interfaceDeclaration d]
  else if ← atFunction then
    finish .exportDefault start [← functionDeclaration d false true]
  else
    let e ← d (.assignment true)
    semicolon
    finish .exportDefault start [e]

/-- All names of another module. -/
def exportAll (start : Nat) : P Tree := do
  expect "*"
  if ← eat "as" then
    let name ← moduleName
    exportName name.text
  expect "from"
  moduleSource
  finish .statement start []

/-- A name that can be exported from this module: a name that can be declared. -/
def checkExport (s : Specifier) : P Unit :=
  flawIf (s.name.kind == .string || s.name.isReserved || strictWords.contains s.name.text)

/-- The node of an exported name. It stands for a value unless it comes from another module. -/
def Specifier.node (s : Specifier) (isLocal : Bool) : Tree :=
  .node .exportSpecifier ⟨s.name.start, s.other.stop⟩
    (if isLocal then [.leaf (.reference s.name.text) ⟨s.name.start, s.name.stop⟩] else [])

/-- Names in braces. -/
def exportNames (start : Nat) : P Tree := do
  let names ← specifiers
  let isLocal := !(← eat "from")
  if isLocal then
    for s in names do
      checkExport s
  else
    let _ ← stringLiteral
    importAttributes
  for s in names do
    exportName s.other.text
  semicolon
  finish .statement start (names.map (·.node isLocal))

/-- A declaration that is exported. -/
def exportDeclared (d : Descent) (start : Nat) (decs : List Tree) : P Tree := do
  let t ← declaration d decs
  for name in declaredNames t do
    exportName name
  finish .exportNamed start [t]

/-- An export. -/
def exportDeclaration (d : Descent) (start : Nat) (decs : List Tree) : P Tree := do
  expect "export"
  let t ← peek
  let next ← peekNext
  let types ← typed
  if t.is "default" then exportDefault d start decs
  else if t.is "*" then exportAll start
  else if t.is "\x7b" then exportNames start
  else if types && t.is "type" && next.isOneOf ["*", "\x7b"] then
    bump
    if next.is "*" then exportAll start else exportNames start
  else if types && t.is "=" then
    bump
    let e ← d .expression
    semicolon
    finish .statement start [e]
  else if types && t.is "as" && next.is "namespace" then
    bump
    bump
    let _ ← anyWord
    semicolon
    finish .statement start []
  else if types && t.is "import" then importDeclaration
  else exportDeclared d start decs

end BaselineAudit.Script.Parser
