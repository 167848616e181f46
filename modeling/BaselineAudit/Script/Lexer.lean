import BaselineAudit.Script.Token
import BaselineAudit.Text.Letter

/-!
# Reading tokens

A token is read where it is wanted, because what a character starts depends on what stands in front of
it: a `/` starts a regular expression in some places, a closing brace goes on with a template, and
text in markup has rules of its own.
-/

namespace BaselineAudit.Script

/-- A place in a text. -/
structure Cursor where
  offset : Nat
  rest : List Char
  deriving Inhabited

/-- A token with the text from its start on, and from its end on. -/
structure Lexed where
  token : Token
  here : List Char
  rest : List Char
  /-- The token does not follow the rules. -/
  flawed : Bool := false
  deriving Inhabited

namespace Lexer

/-- Characters that end a line. -/
def endsLine (c : Char) : Bool := c == '\n' || c == '\r' || c == '\u2028' || c == '\u2029'

/-- Blanks within a line. -/
def isSpace (c : Char) : Bool :=
  let n := c.toNat
  c == ' ' || c == '\t' || n == 0xB || n == 0xC || n == 0x85 || n == 0xA0 || n == 0x1680 ||
    (0x2000 ≤ n && n ≤ 0x200B) || n == 0x202F || n == 0x205F || n == 0x3000 || n == 0xFEFF

/-- A character with which a name can start. -/
def startsName (c : Char) : Bool := c == '$' || c == '_' || Text.isIdStart c

/-- A character of a name. -/
def continuesName (c : Char) : Bool := c == '$' || Text.isIdContinue c

/-- The bytes of characters. -/
def bytes (cs : List Char) : Nat := cs.foldl (fun n c => n + c.utf8Size) 0

/-! ## Blanks and comments -/

/-- Where a search for the next token is. -/
inductive Between where
  | blank
  | lineComment
  | blockComment

/-- What stands in front of a token. -/
structure Gap where
  stop : Cursor
  newline : Bool
  /-- A comment has no end. -/
  flawed : Bool := false

/-- Skips blanks and comments. -/
def gap : Between → (newline : Bool) → (offset : Nat) → List Char → Gap
  | .blockComment, newline, offset, [] => ⟨⟨offset, []⟩, newline, true⟩
  | _, newline, offset, [] => ⟨⟨offset, []⟩, newline, false⟩
  | .blank, newline, offset, '/' :: '/' :: cs => gap .lineComment newline (offset + 2) cs
  | .blank, newline, offset, '/' :: '*' :: cs => gap .blockComment newline (offset + 2) cs
  | .blank, newline, offset, c :: cs =>
    if endsLine c then gap .blank true (offset + c.utf8Size) cs
    else if isSpace c then gap .blank newline (offset + c.utf8Size) cs
    else ⟨⟨offset, c :: cs⟩, newline, false⟩
  | .lineComment, newline, offset, c :: cs =>
    if endsLine c then gap .blank true (offset + c.utf8Size) cs
    else gap .lineComment newline (offset + c.utf8Size) cs
  | .blockComment, newline, offset, '*' :: '/' :: cs => gap .blank newline (offset + 2) cs
  | .blockComment, newline, offset, c :: cs =>
    gap .blockComment (newline || endsLine c) (offset + c.utf8Size) cs

/-! ## Escapes -/

/-- The value of a hexadecimal digit. -/
def hexValue? (c : Char) : Option Nat :=
  if c.isDigit then some (c.toNat - '0'.toNat)
  else if 'a' ≤ c ∧ c ≤ 'f' then some (c.toNat - 'a'.toNat + 10)
  else if 'A' ≤ c ∧ c ≤ 'F' then some (c.toNat - 'A'.toNat + 10)
  else none

/-- The number that hexadecimal digits stand for. -/
def hexNumber? (cs : List Char) : Option Nat :=
  if cs.isEmpty then none
  else cs.foldl (fun n c => do pure ((← n) * 16 + (← hexValue? c))) (some 0)

/-- A number behind `\u`, and what follows it. -/
def unicodeNumber? : List Char → Option (Nat × List Char)
  | '\x7b' :: cs => do
    let digits := cs.takeWhile fun c => (hexValue? c).isSome
    let n ← hexNumber? digits
    if n > 0x10FFFF then none
    else
      match cs.drop digits.length with
      | '\x7d' :: rest => some (n, rest)
      | _ => none
  | a :: b :: c :: d :: cs => do pure (← hexNumber? [a, b, c, d], cs)
  | _ => none

/-- A number that stands for no character. -/
def isSurrogate (n : Nat) : Bool := 0xD800 ≤ n && n ≤ 0xDFFF

/-- Joins the two halves of a character. -/
def joined : List Nat → List Nat
  | a :: b :: rest =>
    if 0xD800 ≤ a ∧ a ≤ 0xDBFF ∧ 0xDC00 ≤ b ∧ b ≤ 0xDFFF then
      (0x10000 + (a - 0xD800) * 0x400 + (b - 0xDC00)) :: joined rest
    else a :: joined (b :: rest)
  | rest => rest

/-- Four hexadecimal digits. -/
def fourDigits (n : Nat) : List Char :=
  let digits := Nat.toDigits 16 n
  List.replicate (4 - digits.length) '0' ++ digits

/-- The text of numbers of characters. If there is a half character among them, it is written with a
replacement character and its number, and so is a replacement character. -/
def textOf (units : List Nat) : String :=
  let units := joined units
  if units.any isSurrogate then
    String.ofList (units.flatMap fun n =>
      if isSurrogate n || n == 0xFFFD then '\ufffd' :: fourDigits n else [Char.ofNat n])
  else String.ofList (units.map Char.ofNat)

/-- What an escape stands for, and what follows it. -/
structure Escape where
  units : List Nat
  rest : List Char
  valid : Bool := true

/-- The octal digits at the start of a text, at most `n`. -/
def octalDigits (n : Nat) (cs : List Char) : List Char :=
  (cs.take n).takeWhile fun c => '0' ≤ c ∧ c ≤ '7'

/-- The number that octal digits stand for. -/
def octalNumber (cs : List Char) : Nat := cs.foldl (fun n c => n * 8 + (c.toNat - '0'.toNat)) 0

/-- Reads an escape behind its backslash. Octal numbers have no meaning in a template. -/
def escape (inTemplate : Bool) : List Char → Escape
  | [] => ⟨[], [], false⟩
  | '\r' :: '\n' :: cs => ⟨[], cs, true⟩
  | c :: cs =>
    if endsLine c then ⟨[], cs, true⟩
    else
      match c with
      | 'b' => ⟨[8], cs, true⟩
      | 'f' => ⟨[12], cs, true⟩
      | 'n' => ⟨[10], cs, true⟩
      | 'r' => ⟨[13], cs, true⟩
      | 't' => ⟨[9], cs, true⟩
      | 'v' => ⟨[11], cs, true⟩
      | 'x' =>
        match cs with
        | a :: b :: rest =>
          match hexNumber? [a, b] with
          | some n => ⟨[n], rest, true⟩
          | none => ⟨[], cs, false⟩
        | _ => ⟨[], cs, false⟩
      | 'u' =>
        match unicodeNumber? cs with
        | some (n, rest) => ⟨[n], rest, true⟩
        | none => ⟨[], cs, false⟩
      | _ =>
        if c.isDigit then
          if c == '0' && !(cs.head?.any Char.isDigit) then ⟨[0], cs, true⟩
          else if inTemplate then ⟨[], cs, false⟩
          else if c < '8' then
            let digits := octalDigits (if c < '4' then 3 else 2) (c :: cs)
            ⟨[octalNumber digits], (c :: cs).drop digits.length, true⟩
          else ⟨[c.toNat], cs, true⟩
        else ⟨[c.toNat], cs, true⟩

/-! ## Names -/

/-- A name. -/
structure Name where
  chars : List Char
  rest : List Char
  escaped : Bool := false
  flawed : Bool := false

/-- Reads on with a name that has escapes. `first` says that no character was read. -/
def escapedName : (fuel : Nat) → (first : Bool) → List Char → Name
  | 0, _, cs => ⟨[], cs, true, true⟩
  | fuel + 1, first, cs =>
    match cs with
    | '\\' :: 'u' :: after =>
      match unicodeNumber? after with
      | none => ⟨[], after, true, true⟩
      | some (n, rest) =>
        let c := Char.ofNat n
        let fits := !isSurrogate n && (if first then startsName c else continuesName c)
        let more := escapedName fuel false rest
        { more with chars := c :: more.chars, flawed := more.flawed || !fits }
    | '\\' :: after => ⟨[], after, true, true⟩
    | c :: after =>
      if continuesName c then
        let more := escapedName fuel false after
        { more with chars := c :: more.chars }
      else ⟨[], cs, true, false⟩
    | [] => ⟨[], [], true, false⟩

/-- Reads a name whose first character was looked at. -/
def name (cs : List Char) : Name :=
  let plain := cs.takeWhile continuesName
  let rest := cs.drop plain.length
  if rest.head? == some '\\' then
    let more := escapedName rest.length plain.isEmpty rest
    { more with chars := plain ++ more.chars }
  else ⟨plain, rest, false, false⟩

/-! ## Numbers -/

/-- A number. -/
structure Numeral where
  literal : List Char
  rest : List Char
  isBig : Bool := false
  flawed : Bool := false

/-- Digits with separators between them. A separator has to stand between two digits. -/
def digits (p : Char → Bool) : List Char → List Char × List Char × Bool
  | '_' :: cs =>
    match digits p cs with
    | ([], rest, _) => (['_'], rest, true)
    | (more, rest, flawed) => ('_' :: more, rest, flawed || more.head? == some '_')
  | c :: cs =>
    if p c then
      let (more, rest, flawed) := digits p cs
      (c :: more, rest, flawed)
    else ([], c :: cs, false)
  | [] => ([], [], false)

/-- A number that has digits and does not start with a separator. -/
def checkedDigits (p : Char → Bool) (cs : List Char) : List Char × List Char × Bool :=
  let (ds, rest, flawed) := digits p cs
  (ds, rest, flawed || ds.isEmpty || ds.head? == some '_')

/-- An exponent behind its mark. -/
def exponent (mark : Char) (before cs : List Char) : Numeral :=
  let (sign, cs) := match cs with
    | '+' :: cs => (['+'], cs)
    | '-' :: cs => (['-'], cs)
    | cs => ([], cs)
  let (ds, rest, flawed) := checkedDigits Char.isDigit cs
  ⟨before ++ mark :: sign ++ ds, rest, false, flawed⟩

/-- The exponent of a number, if it has one. -/
def optionalExponent (before cs : List Char) (flawed : Bool) : Numeral :=
  match cs with
  | 'e' :: rest =>
    let n := exponent 'e' before rest
    { n with flawed := n.flawed || flawed }
  | 'E' :: rest =>
    let n := exponent 'E' before rest
    { n with flawed := n.flawed || flawed }
  | _ => ⟨before, cs, false, flawed⟩

/-- What stands behind the point of a number. -/
def fraction (before cs : List Char) : Numeral :=
  if cs.head?.any Char.isDigit then
    let (ds, rest, flawed) := checkedDigits Char.isDigit cs
    optionalExponent (before ++ ds) rest flawed
  else if cs.head? == some '_' then ⟨before, cs, false, true⟩
  else optionalExponent before cs false

/-- A number with a base other than ten, behind its mark. -/
def based (mark : Char) (p : Char → Bool) (cs : List Char) : Numeral :=
  let (ds, rest, flawed) := checkedDigits p cs
  match rest with
  | 'n' :: rest => ⟨'0' :: mark :: ds, rest, true, flawed⟩
  | _ => ⟨'0' :: mark :: ds, rest, false, flawed⟩

/-- A number with a zero in front. It is octal unless it has an eight or nine in it. -/
def zeroLed (cs : List Char) : Numeral :=
  let ds := cs.takeWhile Char.isDigit
  let rest := cs.drop ds.length
  if ds.any (· ≥ '8') then
    match rest with
    | '.' :: rest => fraction (ds ++ ['.']) rest
    | 'e' :: rest => exponent 'e' ds rest
    | _ => ⟨ds, rest, false, false⟩
  else ⟨ds, rest, false, false⟩

/-- A number that starts with another digit than zero. -/
def decimal (cs : List Char) : Numeral :=
  let (ds, rest, flawed) := checkedDigits Char.isDigit cs
  match rest with
  | '.' :: rest =>
    let n := fraction (ds ++ ['.']) rest
    { n with flawed := n.flawed || flawed }
  | 'n' :: rest => ⟨ds, rest, true, flawed⟩
  | _ => optionalExponent ds rest flawed

/-- A number. A name or digit right behind it is a flaw. -/
def numeral (cs : List Char) : Numeral :=
  let n := match cs with
    | '.' :: rest => fraction ['.'] rest
    | '0' :: c :: rest =>
      if c == 'b' || c == 'B' then based c (fun d => d == '0' || d == '1') rest
      else if c == 'o' || c == 'O' then based c (fun d => '0' ≤ d && d ≤ '7') rest
      else if c == 'x' || c == 'X' then based c (fun d => (hexValue? d).isSome) rest
      else if c == 'e' || c == 'E' then exponent c ['0'] rest
      else if c == '.' then fraction ['0', '.'] rest
      else if c == 'n' then ⟨['0'], rest, true, false⟩
      else if c.isDigit then zeroLed cs
      else ⟨['0'], c :: rest, false, false⟩
    | '0' :: [] => ⟨['0'], [], false, false⟩
    | _ => decimal cs
  { n with flawed := n.flawed || n.rest.head?.any fun c => startsName c || c.isDigit }

/-! ## Strings, templates, regular expressions -/

/-- A string or a piece of a template. -/
structure Quoted where
  units : List Nat
  /-- The bytes from its start to its end. -/
  size : Nat
  rest : List Char
  /-- It has an end. -/
  closed : Bool := true
  /-- All its escapes have a meaning. -/
  valid : Bool := true
  /-- It ends at the start of an expression. -/
  opensExpression : Bool := false

/-- The bytes between two places of a text. -/
def bytesUpTo (cs rest : List Char) : Nat := bytes (cs.take (cs.length - rest.length))

/-- Reads a string up to its quote. -/
def quoted (quote : Char) : (fuel : Nat) → List Char → Quoted
  | 0, cs => ⟨[], 0, cs, false, true, false⟩
  | fuel + 1, cs =>
    match cs with
    | [] => ⟨[], 0, [], false, true, false⟩
    | c :: after =>
      if c == quote then ⟨[], c.utf8Size, after, true, true, false⟩
      else if c == '\n' || c == '\r' then ⟨[], 0, cs, false, true, false⟩
      else if c == '\\' then
        let e := escape false after
        let more := quoted quote fuel e.rest
        { more with
          units := e.units ++ more.units
          size := more.size + 1 + bytesUpTo after e.rest
          valid := more.valid && e.valid }
      else
        let more := quoted quote fuel after
        { more with units := c.toNat :: more.units, size := more.size + c.utf8Size }

/-- Reads a piece of a template up to its end. -/
def templatePiece : (fuel : Nat) → List Char → Quoted
  | 0, cs => ⟨[], 0, cs, false, true, false⟩
  | fuel + 1, cs =>
    match cs with
    | [] => ⟨[], 0, [], false, true, false⟩
    | c :: after =>
      if c.toNat == 0x60 then ⟨[], 1, after, true, true, false⟩
      else if c == '$' && after.head? == some '\x7b' then ⟨[], 2, after.drop 1, true, true, true⟩
      else if c == '\\' then
        let e := escape true after
        let more := templatePiece fuel e.rest
        { more with
          units := e.units ++ more.units
          size := more.size + 1 + bytesUpTo after e.rest
          valid := more.valid && e.valid }
      else if c == '\r' then
        let rest := if after.head? == some '\n' then after.drop 1 else after
        let more := templatePiece fuel rest
        { more with units := 10 :: more.units, size := more.size + 1 + bytesUpTo after rest }
      else
        let more := templatePiece fuel after
        { more with units := c.toNat :: more.units, size := more.size + c.utf8Size }

/-- A piece of a template that starts at `cs`, as it is written. -/
def rawText (q : Quoted) (cs : List Char) : String :=
  let mark := if q.opensExpression then 2 else 1
  String.ofList (cs.take (cs.length - q.rest.length - mark))

/-- Reads a regular expression behind its slash, up to the slash that ends it. -/
def regexBody (inClass escaped : Bool) : List Char → Option (List Char × List Char)
  | [] => none
  | c :: cs =>
    if endsLine c then none
    else if escaped then add c (regexBody inClass false cs)
    else if c == '\\' then add c (regexBody inClass true cs)
    else if c == '[' then add c (regexBody true false cs)
    else if c == ']' then add c (regexBody false false cs)
    else if c == '/' && !inClass then some ([c], cs)
    else add c (regexBody inClass false cs)
where
  /-- Puts a character in front of what was read. -/
  add (c : Char) (r : Option (List Char × List Char)) : Option (List Char × List Char) :=
    r.map fun (body, rest) => (c :: body, rest)

/-- The flags that a regular expression can have. -/
def regexFlags : List Char := ['g', 'i', 'm', 's', 'u', 'y', 'd', 'v']

/-- Flags each of which has a meaning and stands once. -/
def goodFlags : List Char → Bool
  | [] => true
  | f :: rest => regexFlags.contains f && !rest.contains f && goodFlags rest

/-! ## Tokens -/

/-- The punctuators, longer ones before those they start with. A `>` is always alone. -/
def punctuators : List String :=
  ["<<=", "===", "!==", "**=", "&&=", "||=", "??=", "...", "=>", "==", "!=", "<=", "<<", "++", "--",
    "+=", "-=", "**", "*=", "/=", "%=", "&&", "||", "??", "&=", "|=", "^=", "\x7b", "\x7d", "(", ")",
    "[", "]", ";", ",", "<", ">", "+", "-", "*", "/", "%", "&", "|", "^", "!", "~", "?", ":", "=",
    ".", "@"]

/-- The punctuator at the start of a text. A `?.` in front of a digit is none. -/
def punctuator? (cs : List Char) : Option String :=
  match cs with
  | '?' :: '.' :: c :: _ => if c.isDigit then some "?" else some "?."
  | ['?', '.'] => some "?."
  | _ => punctuators.find? fun p => p.toList.isPrefixOf cs

/-- A token that starts at a place. -/
def tokenAt (start : Nat) (newline : Bool) (cs : List Char) : Lexed :=
  let make := fun (kind : TokenKind) (text : String) (size : Nat) (rest : List Char)
      (flawed : Bool) => Lexed.mk ⟨kind, text, start, start + size, newline, false⟩ cs rest flawed
  let word := fun (kind : TokenKind) (skipped : Nat) (n : Name) =>
    let size := if n.escaped then bytesUpTo cs n.rest else skipped + bytes n.chars
    Lexed.mk ⟨kind, String.ofList n.chars, start, start + size, newline, n.escaped⟩ cs n.rest n.flawed
  match cs with
  | [] => make .done "" 0 [] false
  | c :: after =>
    if startsName c || c == '\\' then word .word 0 (name cs)
    else if c == '#' then
      if after.head?.any fun d => startsName d || d == '\\' then word .privateName 1 (name after)
      else make .unknown "#" 1 after true
    else if c.isDigit || (c == '.' && after.head?.any Char.isDigit) then
      let n := numeral cs
      let kind := if n.flawed then TokenKind.unknown else if n.isBig then .bigint else .number
      make kind (String.ofList n.literal) (bytesUpTo cs n.rest) n.rest n.flawed
    else if c == '"' || c == '\'' then
      let q := quoted c cs.length after
      let kind := if q.closed then TokenKind.string else .unknown
      make kind (textOf q.units) (q.size + 1) q.rest (!q.closed || !q.valid)
    else if c.toNat == 0x60 then
      let q := templatePiece cs.length after
      if q.closed then
        let cooked := if q.valid then some (textOf q.units) else none
        make (.template true (!q.opensExpression) cooked) (rawText q after) (q.size + 1) q.rest false
      else make .unknown "" (q.size + 1) q.rest true
    else
      match punctuator? cs with
      | some p => make .punct p p.length (cs.drop p.length) false
      | none => make .unknown (String.ofList [c]) c.utf8Size after true

/-- The next token behind a place. -/
def next (p : Cursor) : Lexed :=
  let g := gap .blank false p.offset p.rest
  let l := tokenAt g.stop.offset g.newline g.stop.rest
  { l with flawed := l.flawed || g.flawed }

/-- The first token of a text, behind a first line that names a program. -/
def first (cs : List Char) : Lexed :=
  match cs with
  | '#' :: '!' :: rest =>
    let g := gap .lineComment false 2 rest
    tokenAt g.stop.offset true g.stop.rest
  | _ =>
    let l := next ⟨0, cs⟩
    { l with token := { l.token with newline := true } }

/-- The rest of a template from the brace on that ends an expression. -/
def templateTail (t : Token) (here : List Char) : Lexed :=
  match here with
  | '\x7d' :: after =>
    let q := templatePiece here.length after
    if q.closed then
      let cooked := if q.valid then some (textOf q.units) else none
      ⟨{ t with kind := .template false (!q.opensExpression) cooked, text := rawText q after
                stop := t.start + q.size + 1 }, here, q.rest, false⟩
    else ⟨{ t with kind := .unknown, text := "", stop := t.start + q.size + 1 }, here, q.rest, true⟩
  | _ => ⟨{ t with kind := .unknown, text := "", stop := t.start }, here, here, true⟩

/-- A regular expression from its slash on. -/
def regex? (t : Token) (here : List Char) : Option Lexed :=
  match regexBody false false (here.drop 1) with
  | none => none
  | some (body, rest) =>
    let flags := rest.takeWhile fun c => c.isAlphanum || c == '$' || c == '_'
    let literal := '/' :: body ++ flags
    some ⟨{ t with text := String.ofList literal, stop := t.start + bytes literal }, here,
      rest.drop flags.length, !goodFlags flags⟩

/-- The longest operator that starts with `>`. -/
def angle (t : Token) (here : List Char) : Lexed :=
  let operators := [">>>=", ">>=", ">>>", ">>", ">=", ">"]
  let text := (operators.find? fun p => p.toList.isPrefixOf here).getD ">"
  ⟨{ t with text, stop := t.start + text.length }, here, here.drop text.length, false⟩

/-- The first character alone of a punctuator. -/
def single (t : Token) (here : List Char) : Lexed :=
  ⟨{ t with text := String.ofList (here.take 1), stop := t.start + 1 }, here, here.drop 1, false⟩

/-- A name in markup, which may have dashes in it. -/
def markupName (t : Token) (here rest : List Char) : Lexed :=
  let more := rest.takeWhile fun c => c == '-' || continuesName c
  ⟨{ t with text := t.text ++ String.ofList more, stop := t.stop + bytes more }, here,
    rest.drop more.length, false⟩

/-- A token in the content of an element. -/
def content (p : Cursor) : Lexed :=
  match p.rest with
  | [] => ⟨⟨.done, "", p.offset, p.offset, false, false⟩, [], [], false⟩
  | '<' :: rest => ⟨⟨.punct, "<", p.offset, p.offset + 1, false, false⟩, p.rest, rest, false⟩
  | '\x7b' :: rest => ⟨⟨.punct, "\x7b", p.offset, p.offset + 1, false, false⟩, p.rest, rest, false⟩
  | cs =>
    let text := cs.takeWhile fun c => !"\x7b\x7d<>".toList.contains c
    let rest := cs.drop text.length
    ⟨⟨.text, String.ofList text, p.offset, p.offset + bytes text, false, false⟩, cs, rest,
      rest.head?.any fun c => c == '\x7d' || c == '>'⟩

/-- A token behind the `=` of an attribute. Strings have no escapes there. -/
def attributeValue (p : Cursor) : Lexed :=
  match p.rest with
  | c :: rest =>
    if c == '"' || c == '\'' then
      let text := rest.takeWhile (· != c)
      let size := bytes text + 2
      let closed := (rest.drop text.length).head? == some c
      ⟨⟨if closed then .string else .unknown, String.ofList text, p.offset, p.offset + size, false,
        false⟩, p.rest, rest.drop (text.length + 1), !closed⟩
    else next p
  | [] => next p

end Lexer

end BaselineAudit.Script
