import BaselineAudit.Json.Basic
import BaselineAudit.Number.Numeral

/-!
# Reading JSON texts

`Json.parse?` reads a whole text. Arrays and objects may stand at most 127 deep and numbers must
round to a finite double; what breaks one of these limits is read as `Json.unreadable`, so that it
can still be skipped.
-/

namespace BaselineAudit.Json

open Number

/-- The blanks between the tokens of a JSON text. -/
def isSpace (c : Char) : Bool := c == ' ' || c == '\n' || c == '\r' || c == '\t'

/-- The text without its leading blanks. -/
def skipSpace (cs : List Char) : List Char := cs.dropWhile isSpace

/-- The value of a hexadecimal digit. -/
def hexDigit? (c : Char) : Option Nat :=
  if '0' ≤ c ∧ c ≤ '9' then some (c.toNat - '0'.toNat)
  else if 'a' ≤ c ∧ c ≤ 'f' then some (c.toNat - 'a'.toNat + 10)
  else if 'A' ≤ c ∧ c ≤ 'F' then some (c.toNat - 'A'.toNat + 10)
  else none

/-- The number that four hexadecimal digits write. -/
def hex4? (a b c d : Char) : Option Nat := do
  let a ← hexDigit? a
  let b ← hexDigit? b
  let c ← hexDigit? c
  let d ← hexDigit? d
  pure (((a * 16 + b) * 16 + c) * 16 + d)

/-- One unit of a string: a character, or half of a surrogate pair that was written as an
escape. -/
inductive Unit16 where
  | char (c : Char)
  | high (n : Nat)
  | low (n : Nat)

/-- The unit that an escape `\uXXXX` writes. -/
def Unit16.ofEscape (n : Nat) : Unit16 :=
  if 0xD800 ≤ n ∧ n < 0xDC00 then .high n
  else if 0xDC00 ≤ n ∧ n < 0xE000 then .low n
  else .char (Char.ofNat n)

/-- The text of a list of units: each first half of a pair is followed by a second half. -/
def Unit16.text? : List Unit16 → Option (List Char)
  | [] => some []
  | .char c :: rest => (text? rest).map (c :: ·)
  | .high h :: .low l :: rest =>
    (text? rest).map (Char.ofNat (0x10000 + (h - 0xD800) * 0x400 + (l - 0xDC00)) :: ·)
  | _ => none

/-- The units of a string up to its closing quote, and the text behind it. -/
def readUnits : List Char → Option (List Unit16 × List Char)
  | [] => none
  | '"' :: rest => some ([], rest)
  | '\\' :: 'u' :: a :: b :: c :: d :: rest => do
    let n ← hex4? a b c d
    let (units, rest) ← readUnits rest
    pure (.ofEscape n :: units, rest)
  | '\\' :: c :: rest => do
    let e ← match c with
      | '"' => some '"'
      | '\\' => some '\\'
      | '/' => some '/'
      | 'b' => some '\x08'
      | 'f' => some '\x0c'
      | 'n' => some '\n'
      | 'r' => some '\r'
      | 't' => some '\t'
      | _ => none
    let (units, rest) ← readUnits rest
    pure (.char e :: units, rest)
  | c :: rest =>
    if c.toNat < 0x20 ∨ c = '\\' then none
    else do
      let (units, rest) ← readUnits rest
      pure (.char c :: units, rest)

/-- The text of a string, if it has one, and what stands behind its closing quote. -/
def readString (cs : List Char) : Option (Option String × List Char) :=
  (readUnits cs).map fun (units, rest) => ((Unit16.text? units).map String.ofList, rest)

/-- The value that a number stands for, with the text that wrote it. -/
def numeralValue (n : Numeral) (text : List Char) : Json :=
  match n.negative, n.fraction, n.exponent with
  | false, none, none =>
    if digitsValue n.whole < .pow 2 64 then .natural (digitsValue n.whole)
    else if n.overflows then .unreadable
    else .numeral (String.ofList text)
  | _, _, _ => if n.overflows then .unreadable else .numeral (String.ofList text)

/-- Reads a number: an optional minus, digits without a leading zero, and then an optional fraction
and an optional exponent. -/
def readNumber (cs : List Char) : Option (Json × List Char) := do
  let (negative, body) :=
    match cs with
    | '-' :: rest => (true, rest)
    | _ => (false, cs)
  let (whole, rest) ← match spanDigits body with
    | ([], _) => none
    | (['0'], rest) => some (['0'], rest)
    | ('0' :: _, _) => none
    | (ds, rest) => some (ds, rest)
  let (fraction, rest) ← match rest with
    | '.' :: tail =>
      match spanDigits tail with
      | ([], _) => none
      | (ds, rest) => some (some ds, rest)
    | _ => some (none, rest)
  let (exponent, rest) ← match rest with
    | 'e' :: tail | 'E' :: tail =>
      let (sign, tail) :=
        match tail with
        | '-' :: tail => (true, tail)
        | '+' :: tail => (false, tail)
        | _ => (false, tail)
      match spanDigits tail with
      | ([], _) => none
      | (ds, rest) => some (some (sign, ds), rest)
    | _ => some (none, rest)
  let n : Numeral := ⟨negative, whole, fraction, exponent⟩
  pure (numeralValue n (cs.take (cs.length - rest.length)), rest)

/-- How many arrays and objects may stand inside each other. -/
def maxDepth : Nat := 127

/-- An array or object that stands inside `depth` others. -/
def nested (depth : Nat) (v : Json) : Json := if depth < maxDepth then v else .unreadable

mutual

/-- Reads a value that stands inside `depth` arrays and objects. -/
def readValue : (fuel depth : Nat) → List Char → Option (Json × List Char)
  | 0, _, _ => none
  | fuel + 1, depth, cs =>
    match skipSpace cs with
    | 'n' :: 'u' :: 'l' :: 'l' :: rest => some (.null, rest)
    | 't' :: 'r' :: 'u' :: 'e' :: rest => some (.bool true, rest)
    | 'f' :: 'a' :: 'l' :: 's' :: 'e' :: rest => some (.bool false, rest)
    | '"' :: rest =>
      (readString rest).map fun (s, rest) => ((s.map Json.string).getD .unreadable, rest)
    | '[' :: rest =>
      match skipSpace rest with
      | ']' :: rest => some (nested depth (.array []), rest)
      | rest =>
        (readItems fuel (depth + 1) rest).map fun (items, rest) =>
          (nested depth (.array items), rest)
    | '\x7b' :: rest =>
      match skipSpace rest with
      | '\x7d' :: rest => some (nested depth (.object []), rest)
      | rest =>
        (readFields fuel (depth + 1) rest).map fun (fields, rest) =>
          (nested depth ((fields.map Json.object).getD .unreadable), rest)
    | rest => readNumber rest

/-- Reads the items of an array and its closing bracket. -/
def readItems : (fuel depth : Nat) → List Char → Option (List Json × List Char)
  | 0, _, _ => none
  | fuel + 1, depth, cs => do
    let (item, rest) ← readValue fuel depth cs
    match skipSpace rest with
    | ',' :: rest =>
      let (items, rest) ← readItems fuel depth rest
      pure (item :: items, rest)
    | ']' :: rest => pure ([item], rest)
    | _ => none

/-- Reads the fields of an object and its closing brace. There are no fields to give if a name has
no text. -/
def readFields :
    (fuel depth : Nat) → List Char → Option (Option (List (String × Json)) × List Char)
  | 0, _, _ => none
  | fuel + 1, depth, cs => do
    let .cons '"' rest := skipSpace cs | none
    let (name, rest) ← readString rest
    let .cons ':' rest := skipSpace rest | none
    let (value, rest) ← readValue fuel depth rest
    match skipSpace rest with
    | ',' :: rest =>
      let (fields, rest) ← readFields fuel depth rest
      pure (name.bind fun name => fields.map ((name, value) :: ·), rest)
    | '\x7d' :: rest => pure (name.map fun name => [(name, value)], rest)
    | _ => none

end

/-- Reads a text that holds one value and nothing else but blanks. -/
def parse? (text : String) : Option Json :=
  let cs := text.toList
  match readValue (2 * cs.length + 2) 0 cs with
  | some (v, rest) => if (skipSpace rest).isEmpty then some v else none
  | none => none

end BaselineAudit.Json
