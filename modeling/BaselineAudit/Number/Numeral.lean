/-!
# Written numbers

The parts of a number that is written in decimal, and when it is too large for a double.
-/

namespace BaselineAudit.Number

/-- Decimal digits and what follows them. -/
def spanDigits (cs : List Char) : List Char × List Char :=
  (cs.takeWhile Char.isDigit, cs.dropWhile Char.isDigit)

/-- The number that a list of decimal digits writes. -/
def digitsValue (ds : List Char) : Nat :=
  ds.foldl (fun n d => n * 10 + (d.toNat - '0'.toNat)) 0

/-- The parts of a number: sign, digits before and behind the point, and exponent. -/
structure Numeral where
  negative : Bool
  whole : List Char
  fraction : Option (List Char)
  exponent : Option (Bool × List Char)

/-- The least power of two whose half-way point no double can round below: `2 ^ 1024 - 2 ^ 970`. -/
def doubleLimit : Nat := .pow 2 1024 - .pow 2 970

/-- A number that rounds to no finite double. Its digits are taken as one whole number times a power
of ten, and powers that are out of reach are settled by counting digits. -/
def Numeral.overflows (n : Numeral) : Bool :=
  let fraction := n.fraction.getD []
  let digits := (n.whole ++ fraction).dropWhile (· == '0')
  let shift : Int :=
    match n.exponent with
    | none => 0
    | some (negative, ds) =>
      let e : Int := digitsValue ds
      if negative then -e else e
  let power : Int := shift - fraction.length
  let magnitude : Int := digits.length + power
  if digits.isEmpty then false
  else if magnitude > 320 then true
  else if magnitude < 300 then false
  else if power ≥ 0 then digitsValue digits * .pow 10 power.toNat ≥ doubleLimit
  else digitsValue digits ≥ doubleLimit * .pow 10 (-power).toNat

end BaselineAudit.Number
