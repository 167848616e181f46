import BaselineAudit.Number.Numeral
import BaselineAudit.Toml.Basic
import BaselineAudit.Toml.Quoted

/-!
# Plain values of settings

Booleans, numbers, dates and times.
-/

namespace BaselineAudit.Toml

open Number

/-! ## Numbers -/

/-- Digits without the single underscores between them. -/
def ungrouped? (isDigit : Char → Bool) : List Char → Option (List Char)
  | [] => none
  | [d] => if isDigit d then some [d] else none
  | d :: '_' :: cs => if isDigit d then (ungrouped? isDigit cs).map (d :: ·) else none
  | d :: cs => if isDigit d then (ungrouped? isDigit cs).map (d :: ·) else none

/-- Decimal digits of a whole number, which starts with a zero only if that is all of it. -/
def wholeDigits? (cs : List Char) : Option (List Char) := do
  let digits ← ungrouped? Char.isDigit cs
  if digits.length = 1 || digits.head? != some '0' then pure digits else none

/-- A number and whether a minus stands in front of it. -/
def unsigned : List Char → Bool × List Char
  | '-' :: cs => (true, cs)
  | '+' :: cs => (false, cs)
  | cs => (false, cs)

/-- The value of digits in a base. -/
def digitsIn (base : Nat) (cs : List Char) : Nat :=
  cs.foldl (fun n c => n * base + (Json.hexDigit? c).getD 0) 0

/-- A whole number in a base with digits of its own. -/
def basedInteger? (base : Nat) (cs : List Char) : Option Value := do
  let isDigit := fun c => (Json.hexDigit? c).any (· < base)
  let digits ← ungrouped? isDigit cs
  pure (.integer (digitsIn base digits))

/-- A whole number in decimal. -/
def integer? (cs : List Char) : Option Value := do
  let (isNegative, cs) := unsigned cs
  let n : Int := digitsIn 10 (← wholeDigits? cs)
  pure (.integer (if isNegative then -n else n))

/-- What stands behind a mark, if the mark is there. -/
def behind (isMark : Char → Bool) (cs : List Char) : List Char × Option (List Char) :=
  match cs.span (!isMark ·) with
  | (front, _ :: rest) => (front, some rest)
  | (front, []) => (front, none)

/-- A number with a point, an exponent or both. -/
def float? (cs : List Char) : Option Value := do
  let (isNegative, cs) := unsigned cs
  let (mantissa, exponent) := behind (fun c => c = 'e' || c = 'E') cs
  let (whole, fraction) := behind (· = '.') mantissa
  if exponent.isNone && fraction.isNone then none
  else
    let whole ← wholeDigits? whole
    let fraction ← match fraction with
      | none => some none
      | some ds => (ungrouped? Char.isDigit ds).map some
    let exponent ← match exponent with
      | none => some none
      | some e =>
        let (below, ds) := unsigned e
        (ungrouped? Char.isDigit ds).map fun ds => some (below, ds)
    pure (.float (Numeral.overflows ⟨isNegative, whole, fraction, exponent⟩))

/-- A number in any form. -/
def number? (cs : List Char) : Option Value :=
  match cs with
  | '0' :: 'x' :: ds => basedInteger? 16 ds
  | '0' :: 'o' :: ds => basedInteger? 8 ds
  | '0' :: 'b' :: ds => basedInteger? 2 ds
  | _ =>
    if (unsigned cs).2 = "inf".toList || (unsigned cs).2 = "nan".toList then some (.float false)
    else (integer? cs).orElse fun _ => float? cs

/-! ## Dates and times -/

/-- A number with a fixed count of digits that is in a range. -/
def field? (count low high : Nat) (cs : List Char) : Option (Nat × List Char) :=
  let ds := cs.take count
  let n := digitsIn 10 ds
  if ds.length = count && ds.all Char.isDigit && low ≤ n && n ≤ high then some (n, cs.drop count)
  else none

/-- The days of a month. -/
def daysOf (year month : Nat) : Nat :=
  if month = 2 then
    if year % 4 = 0 && (year % 100 != 0 || year % 400 = 0) then 29 else 28
  else if month = 4 || month = 6 || month = 9 || month = 11 then 30
  else 31

/-- A character at the start of a text. -/
def expect (c : Char) : List Char → Option (List Char)
  | d :: cs => if d = c then some cs else none
  | [] => none

/-- What stands behind a date. -/
def date? (cs : List Char) : Option (List Char) := do
  let (year, cs) ← field? 4 0 9999 cs
  let (month, cs) ← field? 2 1 12 (← expect '-' cs)
  let (_, cs) ← field? 2 1 (daysOf year month) (← expect '-' cs)
  pure cs

/-- What stands behind a time. Seconds may be left out. -/
def time? (cs : List Char) : Option (List Char) := do
  let (_, cs) ← field? 2 0 23 cs
  let (_, cs) ← field? 2 0 59 (← expect ':' cs)
  match cs with
  | ':' :: cs =>
    let (_, cs) ← field? 2 0 60 cs
    match cs with
    | '.' :: d :: cs => if d.isDigit then pure (cs.dropWhile Char.isDigit) else none
    | '.' :: [] => none
    | cs => pure cs
  | cs => pure cs

/-- A text is an offset from world time, or there is none. -/
def isOffset (cs : List Char) : Bool :=
  match cs with
  | [] | ['Z'] | ['z'] => true
  | sign :: cs =>
    (sign = '+' || sign = '-') &&
      ((do
        let (_, cs) ← field? 2 0 23 cs
        let (_, cs) ← field? 2 0 59 (← expect ':' cs)
        pure cs.isEmpty : Option Bool).getD false)

/-- A text is a date, a time or both. -/
def isMoment (cs : List Char) : Bool :=
  match date? cs with
  | some [] => true
  | some (sep :: rest) =>
    (sep = 'T' || sep = 't' || sep = ' ') && ((time? rest).map isOffset).getD false
  | none => (time? cs).map List.isEmpty |>.getD false

/-- The value that a text without quotes and brackets stands for. -/
def plainValue? (cs : List Char) : Option Value :=
  if cs = "true".toList then some (.boolean true)
  else if cs = "false".toList then some (.boolean false)
  else if isMoment cs then some .moment
  else number? cs

end BaselineAudit.Toml
