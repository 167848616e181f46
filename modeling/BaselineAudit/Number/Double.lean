/-!
# Numbers with 53 binary digits

A number is rounded to the nearest one with a mantissa of 53 binary digits, ties to the even one, and
written in decimal with the fewest digits that are read back as the same number. All of it is exact
arithmetic on natural numbers.
-/

namespace BaselineAudit.Number

/-- The number of binary digits of a mantissa. -/
def precision : Nat := 53

/-- The exponent of the smallest numbers. -/
def minExponent : Int := -1074

/-- The exponent of the largest numbers. -/
def maxExponent : Int := 971

/-- A finite number that is not negative: `mantissa * 2 ^ exponent`. -/
structure Double where
  mantissa : Nat
  exponent : Int
  deriving DecidableEq, Repr

/-- The quotient rounded to the nearest natural number, ties to the even one. -/
def roundDiv (n d : Nat) : Nat :=
  let q := n / d
  let r := n % d
  if 2 * r < d then q else if d < 2 * r then q + 1 else if q % 2 = 0 then q else q + 1

/-- A power of two as a numerator and a denominator. -/
def twoTo (e : Int) : Nat × Nat := (.pow 2 e.toNat, .pow 2 (-e).toNat)

/-- A power of ten as a numerator and a denominator. -/
def tenTo (e : Int) : Nat × Nat := (.pow 10 e.toNat, .pow 10 (-e).toNat)

/-- The mantissa of `n / d` for an exponent. -/
def mantissaAt (n d : Nat) (e : Int) : Nat :=
  let (up, down) := twoTo e
  roundDiv (n * down) (d * up)

/-- The number nearest to `n / d`. There is none if it is too large. -/
def Double.ofRatio? (n d : Nat) : Option Double :=
  if n = 0 then some ⟨0, minExponent⟩
  else
    let guess : Int := (n.log2 : Int) - (d.log2 : Int) - precision
    let fits := fun (e : Int) => mantissaAt n d e < .pow 2 precision
    let least := max guess minExponent
    let e := if fits least then least else if fits (least + 1) then least + 1 else least + 2
    if maxExponent < e then none else some ⟨mantissaAt n d e, e⟩

/-- The place of the first digit of `n / d`: 0 for the ones, 1 for the tens, -1 for the tenths. -/
def leadingPlace (n d : Nat) : Int :=
  if d ≤ n then ((Nat.toDigits 10 (n / d)).length : Int) - 1
  else -(search 400 1)
where
  /-- The first place behind the point with a digit other than zero. -/
  search : (fuel place : Nat) → Int
    | 0, place => place
    | fuel + 1, place => if d ≤ n * .pow 10 place then place else search fuel (place + 1)

/-- A decimal number `digits * 10 ^ exponent`. -/
structure Decimal where
  digits : Nat
  exponent : Int
  deriving DecidableEq, Repr

/-- The numbers that are rounded to a `Double`, as an interval of fourths of units `2 ^ exponent`.
Its ends belong to it if the mantissa is even. -/
def Double.interval (x : Double) : Nat × Nat :=
  let narrow := x.mantissa = .pow 2 (precision - 1) && minExponent < x.exponent
  (4 * x.mantissa - (if narrow then 1 else 2), 4 * x.mantissa + 2)

/-- Is a decimal number rounded to a `Double`? -/
def Double.reads (x : Double) (d : Decimal) : Bool :=
  let (low, high) := x.interval
  let (up, down) := twoTo x.exponent
  let (tenUp, tenDown) := tenTo d.exponent
  let value := 4 * d.digits * tenUp * down
  let low := low * up * tenDown
  let high := high * up * tenDown
  if x.mantissa % 2 = 0 then low ≤ value && value ≤ high else low < value && value < high

/-- The distance of a number from a decimal number, on a scale that depends on the exponents only. -/
def Double.distance (x : Double) (d : Decimal) : Nat :=
  let (up, down) := twoTo x.exponent
  let (tenUp, tenDown) := tenTo d.exponent
  let a := d.digits * tenUp * down
  let b := x.mantissa * up * tenDown
  if a ≤ b then b - a else a - b

/-- The decimal number with the fewest digits that is read back as `x`, from `count` digits on. -/
def Double.shortestFrom (x : Double) (place : Int) : (fuel count : Nat) → Decimal
  | 0, _ => ⟨x.mantissa, 0⟩
  | fuel + 1, count =>
    let exponent := place - count + 1
    let (up, down) := twoTo x.exponent
    let (tenUp, tenDown) := tenTo exponent
    let below : Decimal := ⟨x.mantissa * up * tenDown / (down * tenUp), exponent⟩
    let above : Decimal := { below with digits := below.digits + 1 }
    if x.reads below && (!x.reads above || x.distance below ≤ x.distance above) then below
    else if x.reads above then above
    else x.shortestFrom place fuel (count + 1)

/-- The same number without zeros at the end of its digits, as far as `fuel` goes. -/
def Decimal.stripped : (fuel : Nat) → Decimal → Decimal
  | 0, d => d
  | fuel + 1, d =>
    if d.digits ≠ 0 ∧ d.digits % 10 = 0 then stripped fuel ⟨d.digits / 10, d.exponent + 1⟩ else d

/-- The decimal number with the fewest digits that is read back as `x`. -/
def Double.shortest (x : Double) : Decimal :=
  let (up, down) := twoTo x.exponent
  (x.shortestFrom (leadingPlace (x.mantissa * up) down) 17 1).stripped 17

/-- A decimal number as it is written, without an exponent. -/
def Decimal.text (d : Decimal) : String :=
  let digits := Nat.toDigits 10 d.digits
  if 0 ≤ d.exponent then String.ofList (digits ++ List.replicate d.exponent.toNat '0')
  else
    let places := (-d.exponent).toNat
    let digits := List.replicate (places + 1 - digits.length) '0' ++ digits
    let whole := digits.length - places
    String.ofList (digits.take whole ++ '.' :: digits.drop whole)

/-- A number as it is written. -/
def Double.text (x : Double) : String := if x.mantissa = 0 then "0" else x.shortest.text

end BaselineAudit.Number
