/-!
# Tokens of scripts

A token is a word, a literal, a punctuator or a piece of a template or of markup. Which words are
keywords depends on where they stand; a word is never a keyword by its token alone.
-/

namespace BaselineAudit.Script

/-- What a token is. -/
inductive TokenKind where
  /-- A name or keyword. -/
  | word
  /-- A name behind a `#`. -/
  | privateName
  | punct
  | string
  | number
  | bigint
  /-- A piece of a template. It starts or ends at a backquote, or else at an expression. -/
  | template (starts ends : Bool) (cooked : Option String)
  /-- Text in markup. -/
  | text
  /-- The end of the text. -/
  | done
  /-- A character that starts no token. -/
  | unknown
  deriving DecidableEq, Repr, Inhabited

/-- A token. -/
structure Token where
  kind : TokenKind
  /-- A word or punctuator, the value of a string, a number as it is written, the raw text of a
  piece. -/
  text : String
  /-- Where it starts, in bytes. -/
  start : Nat
  stop : Nat
  /-- A line ends in front of it. -/
  newline : Bool
  /-- A word with an escape in it. -/
  escaped : Bool := false
  deriving DecidableEq, Repr, Inhabited

/-- Words that are never names. `await` and `yield` are names in places. -/
def reservedWords : List String :=
  ["break", "case", "catch", "class", "const", "continue", "debugger", "default", "delete", "do",
    "else", "enum", "export", "extends", "false", "finally", "for", "function", "if", "import", "in",
    "instanceof", "new", "null", "return", "super", "switch", "this", "throw", "true", "try",
    "typeof", "var", "void", "while", "with"]

/-- Words that strict code does not use as names. -/
def strictWords : List String :=
  ["implements", "interface", "let", "package", "private", "protected", "public", "static"]

/-- Words that are keywords in some places. -/
def contextualWords : List String :=
  ["abstract", "accessor", "any", "as", "assert", "asserts", "async", "bigint", "boolean",
    "constructor", "declare", "defer", "from", "get", "global", "infer", "intrinsic", "is", "keyof",
    "meta", "module", "namespace", "never", "number", "object", "of", "out", "override", "readonly",
    "require", "satisfies", "set", "source", "string", "symbol", "target", "type", "undefined",
    "unique", "unknown", "using"]

namespace Token

/-- A word or punctuator with a text. -/
def is (t : Token) (text : String) : Bool :=
  (t.kind == .word || t.kind == .punct) && t.text == text

/-- One of some words and punctuators. -/
def isOneOf (t : Token) (texts : List String) : Bool :=
  (t.kind == .word || t.kind == .punct) && texts.contains t.text

def isWord (t : Token) : Bool := t.kind == .word

def isReserved (t : Token) : Bool :=
  t.kind == .word && (reservedWords.contains t.text || t.text == "await" || t.text == "yield")

/-- A word that can be a name, also `await` and `yield`. -/
def isName (t : Token) : Bool := t.kind == .word && !reservedWords.contains t.text

/-- A word that is a keyword somewhere. -/
def isKeyword (t : Token) : Bool :=
  t.isReserved ||
    (t.kind == .word && (strictWords.contains t.text || contextualWords.contains t.text))

/-- The start of a template. -/
def startsTemplate (t : Token) : Bool :=
  match t.kind with
  | .template starts _ _ => starts
  | _ => false

/-- A literal. -/
def isLiteral (t : Token) : Bool :=
  t.kind == .string || t.kind == .number || t.kind == .bigint ||
    t.isOneOf ["null", "true", "false"]

/-- A literal that can be the name of a property. -/
def isLiteralName (t : Token) : Bool :=
  t.kind == .word || t.kind == .string || t.kind == .number || t.kind == .bigint

/-- The operators that assign. -/
def assignmentOperators : List String :=
  ["=", "+=", "-=", "*=", "/=", "%=", "<<=", ">>=", ">>>=", "|=", "^=", "&=", "**=", "&&=", "||=",
    "??="]

def isAssignment (t : Token) : Bool := t.kind == .punct && assignmentOperators.contains t.text

/-- How tightly an operator between two expressions binds. -/
def precedence? (t : Token) : Option Nat :=
  if t.kind == .punct then
    match t.text with
    | "??" => some 1
    | "||" => some 2
    | "&&" => some 3
    | "|" => some 4
    | "^" => some 5
    | "&" => some 6
    | "==" | "!=" | "===" | "!==" => some 7
    | "<" | ">" | "<=" | ">=" => some 8
    | "<<" | ">>" | ">>>" => some 9
    | "+" | "-" => some 10
    | "*" | "/" | "%" => some 11
    | "**" => some 12
    | _ => none
  else if t.isOneOf ["instanceof", "in", "as", "satisfies"] then some 8
  else none

/-- An operator in front of an expression. -/
def isUnary (t : Token) : Bool := t.isOneOf ["+", "-", "!", "~", "typeof", "void", "delete"]

end Token

end BaselineAudit.Script
