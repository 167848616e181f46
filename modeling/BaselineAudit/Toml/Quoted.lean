import BaselineAudit.Json.Reader

/-!
# Keys and quoted text of settings

Text stands in double quotes with escapes or in single quotes without. Three quotes enclose several
lines.
-/

namespace BaselineAudit.Toml

/-- Characters that may stand in text and comments. -/
def isPlain (c : Char) : Bool := c = '\t' || (0x20 ≤ c.toNat && c.toNat != 0x7F)

def isSpace (c : Char) : Bool := c = ' ' || c = '\t'

/-- A text without the spaces and tabs at its start. -/
def skipSpaces (cs : List Char) : List Char := cs.dropWhile isSpace

/-- The character with a number. -/
def charOf? (n : Nat) : Option Char := if n.isValidChar then some (Char.ofNat n) else none

/-- The character that hexadecimal digits at the start of a text stand for. -/
def hexChar? (count : Nat) (cs : List Char) : Option (Char × List Char) := do
  let digits ← (cs.take count).mapM Json.hexDigit?
  if digits.length = count then
    pure (← charOf? (digits.foldl (fun n d => n * 16 + d) 0), cs.drop count)
  else none

/-- The character that an escape stands for, behind its backslash. -/
def escape? : List Char → Option (Char × List Char)
  | 'b' :: cs => some ('\x08', cs)
  | 't' :: cs => some ('\t', cs)
  | 'n' :: cs => some ('\n', cs)
  | 'f' :: cs => some ('\x0c', cs)
  | 'r' :: cs => some ('\r', cs)
  | 'e' :: cs => some ('\x1b', cs)
  | '"' :: cs => some ('"', cs)
  | '\\' :: cs => some ('\\', cs)
  | 'x' :: cs => hexChar? 2 cs
  | 'u' :: cs => hexChar? 4 cs
  | 'U' :: cs => hexChar? 8 cs
  | _ => none

/-- Text on one line with escapes, behind its quote. -/
def escapedLine : (fuel : Nat) → List Char → Option (List Char × List Char)
  | 0, _ => none
  | _ + 1, [] => none
  | _ + 1, '"' :: cs => some ([], cs)
  | n + 1, '\\' :: cs => do
    let (c, cs) ← escape? cs
    let (text, cs) ← escapedLine n cs
    pure (c :: text, cs)
  | n + 1, c :: cs =>
    if isPlain c then do
      let (text, cs) ← escapedLine n cs
      pure (c :: text, cs)
    else none

/-- Text on one line without escapes, behind its quote. -/
def literalLine : List Char → Option (List Char × List Char)
  | [] => none
  | '\'' :: cs => some ([], cs)
  | c :: cs =>
    if isPlain c then do
      let (text, cs) ← literalLine cs
      pure (c :: text, cs)
    else none

/-! ## Several lines -/

/-- A text without a newline at its start. -/
def dropNewline : List Char → List Char
  | '\n' :: cs => cs
  | '\r' :: '\n' :: cs => cs
  | cs => cs

/-- The text behind a backslash at the end of a line goes on at the next character. -/
def continued? (cs : List Char) : Option (List Char) :=
  let isGap := fun (c : Char) => isSpace c || c = '\n' || c = '\r'
  match skipSpaces cs with
  | '\n' :: rest => some (rest.dropWhile isGap)
  | '\r' :: '\n' :: rest => some (rest.dropWhile isGap)
  | _ => none

/-- Quotes in text on several lines. Three of them end it, and up to two in front of these belong to
the text. -/
inductive QuoteRun where
  | inside (count : Nat)
  | ending (count : Nat)

/-- What the quotes at the start of a text are. -/
def quoteRun (quote : Char) (cs : List Char) : QuoteRun :=
  let count := (cs.takeWhile (· = quote)).length
  if count < 3 then .inside count else .ending (min (count - 3) 2)

/-- Text on several lines, behind its quotes. -/
def severalLines (quote : Char) (escapes : Bool) :
    (fuel : Nat) → List Char → Option (List Char × List Char)
  | 0, _ => none
  | _ + 1, [] => none
  | n + 1, c :: cs =>
    if c = quote then
      match quoteRun quote (c :: cs) with
      | .ending count => some (List.replicate count quote, cs.drop (count + 2))
      | .inside count => do
        let (text, rest) ← severalLines quote escapes n (cs.drop (count - 1))
        pure (List.replicate count quote ++ text, rest)
    else if c = '\\' && escapes then
      match continued? cs with
      | some rest => severalLines quote escapes n rest
      | none => do
        let (e, rest) ← escape? cs
        let (text, rest) ← severalLines quote escapes n rest
        pure (e :: text, rest)
    else if c = '\n' || isPlain c then do
      let (text, rest) ← severalLines quote escapes n cs
      pure (c :: text, rest)
    else if c = '\r' && cs.head? = some '\n' then severalLines quote escapes n cs
    else none

/-- Quoted text as a value. -/
def quotedText? : List Char → Option (List Char × List Char)
  | '"' :: '"' :: '"' :: cs =>
    let cs := dropNewline cs
    severalLines '"' true (cs.length + 1) cs
  | '\'' :: '\'' :: '\'' :: cs =>
    let cs := dropNewline cs
    severalLines '\'' false (cs.length + 1) cs
  | '"' :: cs => escapedLine (cs.length + 1) cs
  | '\'' :: cs => literalLine cs
  | _ => none

/-! ## Keys -/

/-- Characters of keys without quotes. -/
def isKeyChar (c : Char) : Bool := c.isAlphanum || c = '_' || c = '-'

/-- A key without dots. -/
def keyPart? : List Char → Option (String × List Char)
  | '"' :: cs => do
    let (text, rest) ← escapedLine (cs.length + 1) cs
    pure (String.ofList text, rest)
  | '\'' :: cs => do
    let (text, rest) ← literalLine cs
    pure (String.ofList text, rest)
  | cs =>
    match cs.span isKeyChar with
    | ([], _) => none
    | (text, rest) => some (String.ofList text, rest)

/-- A key: the parts in front of its last dot, and the part behind it. -/
structure Key where
  path : List String
  last : String
  deriving DecidableEq, Repr

/-- A key, with the spaces behind it left out. -/
def keyFrom : (fuel : Nat) → List Char → Option (Key × List Char)
  | 0, _ => none
  | n + 1, cs => do
    let (part, rest) ← keyPart? cs
    match skipSpaces rest with
    | '.' :: rest =>
      let (key, rest) ← keyFrom n (skipSpaces rest)
      pure (⟨part :: key.path, key.last⟩, rest)
    | rest => pure (⟨[], part⟩, rest)

/-- A key at the start of a text, with the spaces behind it left out. -/
def key? (cs : List Char) : Option (Key × List Char) := keyFrom (cs.length + 1) cs

end BaselineAudit.Toml
