import BaselineAudit.Toml.Scalar

/-!
# Settings files

`Toml.parse?` reads a whole file. Headers and keys are lines of their own, and each adds to the
document in turn.
-/

namespace BaselineAudit.Toml

/-! ## Between values -/

/-- A text without the spaces, newlines and comments at its start. A comment ends with its line. -/
def skipGapsFrom : (inComment : Bool) → List Char → Option (List Char)
  | _, [] => some []
  | _, '\n' :: cs => skipGapsFrom false cs
  | _, '\r' :: '\n' :: cs => skipGapsFrom false cs
  | true, c :: cs => if isPlain c then skipGapsFrom true cs else none
  | false, c :: cs =>
    if isSpace c then skipGapsFrom false cs
    else if c = '#' then skipGapsFrom true cs
    else some (c :: cs)

/-- A text without the spaces, newlines and comments at its start. -/
def skipGaps (cs : List Char) : Option (List Char) := skipGapsFrom false cs

/-- The text behind the end of a line, in front of which a comment may stand. -/
def lineEnd? (cs : List Char) : Option (List Char) :=
  let cs := skipSpaces cs
  let isBreak := fun (c : Char) => c = '\n' || c = '\r'
  let rest :=
    match cs with
    | '#' :: comment =>
      let (text, rest) := comment.span (!isBreak ·)
      if text.all isPlain then some rest else none
    | cs => some cs
  match rest with
  | some [] => some []
  | some ('\n' :: cs) => some cs
  | some ('\r' :: '\n' :: cs) => some cs
  | _ => none

/-! ## Values -/

/-- A character that ends a value without quotes. -/
def endsPlain (c : Char) : Bool :=
  isSpace c || c = '\n' || c = '\r' || c = ',' || c = ']' || c = '\x7d' || c = '#'

/-- A value without quotes and brackets. A space may stand between a date and a time. -/
def plain? (cs : List Char) : Option (Value × List Char) := do
  let (text, rest) := cs.span (!endsPlain ·)
  match date? text, rest with
  | some [], ' ' :: d :: more =>
    if d.isDigit then
      let (time, rest) := (d :: more).span (!endsPlain ·)
      pure (← plainValue? (text ++ ' ' :: time), rest)
    else pure (← plainValue? text, rest)
  | _, _ => pure (← plainValue? text, rest)

/-- The items of an array, behind its bracket. A comma may stand behind the last one. -/
def items (value? : List Char → Option (Value × List Char)) :
    (fuel : Nat) → List Char → Option (List Value × List Char)
  | 0, _ => none
  | n + 1, cs => do
    match ← skipGaps cs with
    | ']' :: cs => pure ([], cs)
    | cs =>
      let (v, cs) ← value? cs
      match ← skipGaps cs with
      | ']' :: cs => pure ([v], cs)
      | ',' :: cs =>
        let (rest, cs) ← items value? n cs
        pure (v :: rest, cs)
      | _ => none

/-- A key with its value. -/
def pair? (value? : List Char → Option (Value × List Char)) (cs : List Char) :
    Option ((Key × Value) × List Char) := do
  let (key, cs) ← key? cs
  let (v, cs) ← value? (skipSpaces (← expect '=' cs))
  pure ((key, v), cs)

/-- The keys of a table in braces, behind the first one. A comma may stand behind the last one. -/
def pairs (value? : List Char → Option (Value × List Char)) :
    (fuel : Nat) → List Char → Option (List (Key × Value) × List Char)
  | 0, _ => none
  | n + 1, cs => do
    match ← skipGaps cs with
    | '\x7d' :: cs => pure ([], cs)
    | cs =>
      let (p, cs) ← pair? value? cs
      match ← skipGaps cs with
      | '\x7d' :: cs => pure ([p], cs)
      | ',' :: cs =>
        let (rest, cs) ← pairs value? n cs
        pure (p :: rest, cs)
      | _ => none

/-- The table that keys in braces make. -/
def braced (entries : List (Key × Value)) : Option Value :=
  entries.foldlM (fun t (key, v) => assign key.path key.last v t) (.table .braced [])

/-- A value in which arrays and braces stand at most `depth` deep. -/
def value? : (depth : Nat) → List Char → Option (Value × List Char)
  | depth + 1, '[' :: cs => do
    let (vs, rest) ← items (value? depth) (cs.length + 1) cs
    pure (.array vs, rest)
  | depth + 1, '\x7b' :: cs => do
    let (entries, rest) ← pairs (value? depth) (cs.length + 1) cs
    pure (← braced entries, rest)
  | _, cs =>
    match cs with
    | '"' :: _ | '\'' :: _ => do
      let (text, rest) ← quotedText? cs
      pure (.string (String.ofList text), rest)
    | _ => plain? cs

/-- How deep arrays and braces may stand. -/
def maxDepth : Nat := 80

/-! ## Lines -/

/-- What a line of a settings file says. -/
inductive Line where
  /-- The header of a table. -/
  | header (key : Key)
  /-- The header of a table in an array. -/
  | item (key : Key)
  | pair (key : Key) (value : Value)

/-- A line that is not blank, and what stands behind its last character. -/
def line? : List Char → Option (Line × List Char)
  | '[' :: '[' :: cs => do
    let (key, cs) ← key? (skipSpaces cs)
    pure (.item key, ← expect ']' (← expect ']' cs))
  | '[' :: cs => do
    let (key, cs) ← key? (skipSpaces cs)
    pure (.header key, ← expect ']' cs)
  | cs => do
    let ((key, v), cs) ← pair? (value? maxDepth) cs
    pure (.pair key v, cs)

/-- The lines of a file that are not blank. -/
def lines : (fuel : Nat) → List Char → Option (List Line)
  | 0, _ => none
  | n + 1, cs => do
    match ← skipGaps cs with
    | [] => pure []
    | cs =>
      let (line, cs) ← line? cs
      pure (line :: (← lines n (← lineEnd? cs)))

/-- A document with the path of its last header. -/
structure Draft where
  header : List String
  root : Value

namespace Draft

/-- A document with one more line. -/
def push (d : Draft) : Line → Option Draft
  | .header key => do
    let root ← descend false (changeEntry key.last beginTable) key.path d.root
    pure ⟨key.path ++ [key.last], root⟩
  | .item key => do
    let root ← descend false (changeEntry key.last beginItem) key.path d.root
    pure ⟨key.path ++ [key.last], root⟩
  | .pair key v => do
    pure { d with root := ← descend false (assign key.path key.last v) d.header d.root }

end Draft

/-- The mark that may stand in front of a file. -/
def withoutMark : List Char → List Char
  | '\ufeff' :: cs => cs
  | cs => cs

/-- The table that a settings file shows. -/
def parse? (text : String) : Option Value := do
  let cs := withoutMark text.toList
  let d ← (← lines (cs.length + 1) cs).foldlM Draft.push ⟨[], .table .headed []⟩
  pure d.root

end BaselineAudit.Toml
