import BaselineAudit.Number.Double
import BaselineAudit.Script.Lexer

/-!
# The values of numbers in scripts

A number is written in decimal, with a point and an exponent, or with another base. Its value is
shown in decimal without an exponent.
-/

namespace BaselineAudit.Script.Number

open BaselineAudit.Number

/-- The value of digits in a base. -/
def inBase (base : Nat) (cs : List Char) : Nat :=
  cs.foldl (fun n c => n * base + (Lexer.hexValue? c).getD 0) 0

/-- The exponent at the end of a number, behind its mark. -/
def exponentOf : List Char → Int
  | '-' :: cs => -(inBase 10 cs : Int)
  | '+' :: cs => inBase 10 cs
  | cs => inBase 10 cs

/-- Decimal exponents beyond which a number is zero or too large. -/
def exponentLimit : Nat := 400

/-- The text of `digits * 10 ^ exponent`. -/
def decimalText (digits : List Char) (exponent : Int) : String :=
  let n := inBase 10 digits
  let place := exponent + (Nat.toDigits 10 n).length
  if n = 0 || place < -(exponentLimit : Int) then "0"
  else if (exponentLimit : Int) < place then "inf"
  else
    let (up, down) := tenTo exponent
    ((Double.ofRatio? (n * up) down).map Double.text).getD "inf"

/-- The text of a natural number, rounded. -/
def naturalText (n : Nat) : String := ((Double.ofRatio? n 1).map Double.text).getD "inf"

/-- The base of a number with a mark for it, and its digits. -/
def based? : List Char → Option (Nat × List Char)
  | '0' :: c :: cs =>
    if c == 'x' || c == 'X' then some (16, cs)
    else if c == 'o' || c == 'O' then some (8, cs)
    else if c == 'b' || c == 'B' then some (2, cs)
    else if c.isDigit && (c :: cs).all fun d => '0' ≤ d && d ≤ '7' then some (8, c :: cs)
    else none
  | _ => none

/-- The value of a number as it is shown. -/
def text (literal : String) : String :=
  let cs := literal.toList.filter (· != '_')
  match based? cs with
  | some (base, digits) => naturalText (inBase base digits)
  | none =>
    let isMark := fun (c : Char) => c == 'e' || c == 'E'
    let (mantissa, mark) := cs.span (!isMark ·)
    let (whole, point) := mantissa.span (· != '.')
    let places := point.drop 1
    decimalText (whole ++ places) (exponentOf (mark.drop 1) - places.length)

/-- The value of an integer of any size. -/
def bigText (literal : String) : String :=
  let cs := literal.toList.filter (· != '_')
  match based? cs with
  | some (base, digits) => (inBase base digits).repr
  | none => (inBase 10 cs).repr

end BaselineAudit.Script.Number
