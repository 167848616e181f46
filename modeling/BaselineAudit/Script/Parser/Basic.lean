import BaselineAudit.Script.Lexer
import BaselineAudit.Script.Tree

/-!
# Steps of a parser

A parser of scripts looks at the current token and decides. It fails for good where no script goes on
like this; a text that can be read on but breaks a rule is `flawed`. An attempt that fails leaves no
trace.

Rules that refer to each other do so through a `Descent`, which parses a `Goal`.
-/

namespace BaselineAudit.Script

/-- A dialect of scripts. -/
structure Dialect where
  /-- Are there types? -/
  typed : Bool
  /-- Is there markup? -/
  markup : Bool
  deriving DecidableEq, Repr, Inhabited

/-- What the place allows at which a parser is. -/
structure Context where
  /-- `in` is an operator. -/
  hasIn : Bool := true
  /-- `yield` is a keyword. -/
  hasYield : Bool := false
  /-- `await` is a keyword. -/
  hasAwait : Bool := false
  /-- A function can be left. -/
  hasReturn : Bool := false
  /-- Only declarations without content count. -/
  isAmbient : Bool := false
  /-- An index is no part of the expression. -/
  isDecorator : Bool := false
  /-- A type has no condition. -/
  isConditionless : Bool := false
  deriving DecidableEq, Repr, Inhabited

/-- The state of a parser. -/
structure State where
  dialect : Dialect
  context : Context
  token : Token
  /-- The text from the token on. -/
  here : List Char
  /-- The text behind the token. -/
  rest : List Char
  /-- Where the token before ended. -/
  before : Nat := 0
  /-- A rule was broken. -/
  flawed : Bool := false
  /-- Where shorthand properties with a value start that no pattern has taken up. -/
  pending : List Nat := []
  /-- The names that were exported. -/
  exported : List String := []
  deriving Inhabited

/-- A parser. -/
abbrev P := StateT State Option

/-- The rules that refer to each other. -/
inductive Goal where
  /-- A statement; `single` where it stands alone and not in a list. -/
  | statement (single : Bool)
  /-- An expression, with commas. -/
  | expression
  /-- An expression without commas; an arrow function in it may have a type. -/
  | assignment (arrowType : Bool)
  /-- An expression of operators that bind tighter than a bound. -/
  | operators (bound : Nat)
  | unary
  /-- An expression that can be called. -/
  | leftHand
  /-- The same without calls. -/
  | callee
  | type
  /-- A type without operators between types. -/
  | typeOperand
  /-- A name or pattern that is declared. -/
  | pattern
  | block
  | functionBody
  /-- An element or fragment, from its `<` on; `inside` another one. -/
  | markup (inside : Bool)
  deriving DecidableEq, Repr

/-- The parser of each goal. -/
abbrev Descent := Goal → P Tree

namespace Parser

/-- No script goes on like this. -/
def fail {α : Type} : P α := fun _ => none

/-- A rule is broken. -/
def flaw : P Unit := modify fun s => { s with flawed := true }

/-- A rule is broken if `b`. -/
def flawIf (b : Bool) : P Unit := if b then flaw else pure ()

def peek : P Token := do pure (← get).token

def context : P Context := do pure (← get).context

def typed : P Bool := do pure (← get).dialect.typed

def hasMarkup : P Bool := do pure (← get).dialect.markup

/-- Where the current token starts. -/
def startHere : P Nat := do pure (← peek).start

/-- Is the current token this word or punctuator? -/
def isAt (text : String) : P Bool := do pure ((← peek).is text)

def atOneOf (texts : List String) : P Bool := do pure ((← peek).isOneOf texts)

def atEnd : P Bool := do pure ((← peek).kind == .done)

/-- Goes on to a token. -/
def put (l : Lexed) : P Unit :=
  modify fun s =>
    { s with token := l.token, here := l.here, rest := l.rest, flawed := s.flawed || l.flawed }

/-- Goes on to the next token, which is read by `read`. -/
def advanceBy (read : Cursor → Lexed) : P Unit := do
  let s ← get
  set { s with before := s.token.stop }
  put (read ⟨s.token.stop, s.rest⟩)

/-- Goes on to the next token. -/
def advance : P Unit := advanceBy Lexer.next

/-- Takes a keyword with an escape for a flaw. -/
def checkKeyword : P Unit := do
  let t ← peek
  flawIf (t.escaped && t.isKeyword)

/-- Goes on behind the current token. A keyword must not be escaped. -/
def bump : P Unit := do checkKeyword; advance

/-- Goes on behind a word that is a name here. -/
def bumpName : P Unit := advance

/-- Goes on behind the current token into the content of an element. -/
def bumpToContent : P Unit := do checkKeyword; advanceBy Lexer.content

/-- Reads the current token again in another way. -/
def relex (read : Token → List Char → Lexed) : P Unit := do
  let s ← get
  put (read s.token s.here)

def eat (text : String) : P Bool := do
  if ← isAt text then bump; pure true else pure false

def expect (text : String) : P Unit := do
  if ← isAt text then bump else fail

/-- Runs a parser without going on. -/
def ahead {α : Type} (p : P α) : P (Option α) := fun s =>
  match p s with
  | some (a, _) => some (some a, s)
  | none => some (none, s)

/-- Does the text go on in a way? -/
def looks (p : P Bool) : P Bool := do pure ((← ahead p).getD false)

/-- The token behind the current one. -/
def peekNext : P Token := do
  let s ← get
  pure (Lexer.next ⟨s.token.stop, s.rest⟩).token

/-- Runs a parser, or goes nowhere if it fails. -/
def attempt {α : Type} (p : P α) : P (Option α) := fun s =>
  match p s with
  | some (a, s) => some (some a, s)
  | none => some (none, s)

/-- Runs a parser in another context. -/
def within {α : Type} (change : Context → Context) (p : P α) : P α := do
  let c ← context
  modify fun s => { s with context := change c }
  let a ← p
  modify fun s => { s with context := c }
  pure a

/-- Where `in` is an operator. -/
def allowingIn {α : Type} (p : P α) : P α := within (fun c => { c with hasIn := true }) p

/-- A node from `start` up to the end of the last token. -/
def finish (shape : Shape) (start : Nat) (children : List Tree) : P Tree := do
  pure (.node shape ⟨start, (← get).before⟩ children)

/-- More than the number of tokens that are left. -/
def fuel : P Nat := do pure ((← get).here.length + 1)

/-- Can a statement end here? -/
def atStatementEnd : P Bool := do
  let t ← peek
  pure (t.newline || t.kind == .done || t.isOneOf [";", "\x7d"])

/-- The end of a statement: a semicolon, or a place where it may be left out. -/
def semicolon : P Unit := do
  if ← eat ";" then pure () else if ← atStatementEnd then pure () else fail

/-- Items while there are some. -/
def manyFrom (more : P Bool) (item : P (List Tree)) : Nat → P (List Tree)
  | 0 => fail
  | n + 1 => do
    if ← more then
      let first ← item
      let rest ← manyFrom more item n
      pure (first ++ rest)
    else pure []

/-- Items while `more` says so. -/
def many (more : P Bool) (item : P (List Tree)) : P (List Tree) := do
  manyFrom more item (← fuel)

/-- Items up to a token. -/
def upTo (close : String) (item : P Tree) : P (List Tree) :=
  many (do if ← atEnd then pure false else pure !(← isAt close)) do pure [← item]

/-- Items behind the first one, each behind a comma, and whether a comma stands at the end. -/
def commasFrom (close : String) (item : P Tree) : Nat → P (List Tree × Bool)
  | 0 => fail
  | n + 1 => do
    let first ← item
    if ← isAt close then pure ([first], false)
    else
      expect ","
      if ← isAt close then pure ([first], true)
      else
        let (rest, trailing) ← commasFrom close item n
        pure (first :: rest, trailing)

/-- Items with commas between them, up to a token. -/
def commas (close : String) (item : P Tree) : P (List Tree × Bool) := do
  if (← isAt close) || (← atEnd) then pure ([], false) else commasFrom close item (← fuel)

/-- The same between two tokens. -/
def between (opening close : String) (item : P Tree) : P (List Tree × Bool) := do
  expect opening
  let result ← commas close item
  expect close
  pure result

/-! ## Names -/

/-- Words that the context makes keywords are flawed names. -/
def checkName (t : Token) (c : Context) : P Unit :=
  flawIf ((c.hasAwait && t.text == "await") || (c.hasYield && t.text == "yield"))

/-- The name of something that is declared. -/
def bindingName : P Tree := do
  let t ← peek
  if t.isName then
    checkName t (← context)
    bumpName
    finish (.binding t.text) t.start []
  else fail

/-- A name that stands for a value. -/
def referenceName : P Tree := do
  let t ← peek
  if t.isName then
    checkName t (← context)
    bumpName
    finish (.reference t.text) t.start []
  else fail

/-- Any word. -/
def anyWord : P String := do
  let t ← peek
  if t.isWord then bumpName; pure t.text else fail

/-- A string. -/
def stringLiteral : P String := do
  let t ← peek
  if t.kind == .string then bump; pure t.text else fail

/-- A type behind a mark, if there is one. -/
def typeBehind (d : Descent) (mark : String) : P (List Tree) := do
  if ← eat mark then pure [← d .type] else pure []

/-- A type behind a colon, if there is one. -/
def ascribedType (d : Descent) : P (List Tree) := do
  if ← typed then typeBehind d ":" else pure []

end Parser

end BaselineAudit.Script
