import BaselineAudit.Script.Number
import Mathlib.Algebra.GroupWithZero.Nat
import Mathlib.Data.List.TakeDrop
import Mathlib.Data.List.TakeWhile

/-!
# Integers as they are written

An integer below `2 ^ 53` is a double, and no other decimal number is read as this double. So the search
for the fewest digits ends at the digits of the integer itself.

* `Number.ofRatio?_natural`: the integer is not rounded.
* `Number.reads_iff`: which decimal numbers are read as it.
* `Number.ofRatio?_text`: it is written with its own digits.
* `Script.Number.text_of_integer?`: so is a number of a script that is an integer, in any base.
-/

namespace BaselineAudit.Number

/-! ## Integers as doubles -/

theorem twoTo_neg (k : Nat) : twoTo (-(k : Int)) = (1, 2 ^ k) := by
  have hneg : (-(k : Int)).toNat = 0 := by omega
  simp only [twoTo, hneg, Int.neg_neg, Int.toNat_natCast]
  rfl

theorem tenTo_natural (j : Nat) : tenTo (j : Int) = (10 ^ j, 1) := by
  have hneg : (-(j : Int)).toNat = 0 := by omega
  simp only [tenTo, hneg, Int.toNat_natCast]
  rfl

/-- An integer as a double whose exponent is not positive. -/
def scaled (n k : Nat) : Double := ⟨n * 2 ^ k, -(k : Int)⟩

@[simp] theorem scaled_mantissa (n k : Nat) : (scaled n k).mantissa = n * 2 ^ k := rfl

@[simp] theorem scaled_exponent (n k : Nat) : (scaled n k).exponent = -(k : Int) := rfl

theorem mantissaAt_neg (n k : Nat) : mantissaAt n 1 (-(k : Int)) = n * 2 ^ k := by
  simp [mantissaAt, twoTo_neg, roundDiv, Nat.mod_one]

/-- An integer with at most 53 binary digits is not rounded. -/
theorem ofRatio?_natural {n : Nat} (hpos : 0 < n) (hlt : n < 2 ^ precision) :
    ∃ k, Double.ofRatio? n 1 = some (scaled n k) := by
  have hne : n ≠ 0 := by omega
  have hlow : 2 ^ n.log2 ≤ n := Nat.log2_self_le hne
  have hhigh : n < 2 ^ (n.log2 + 1) := Nat.lt_log2_self
  have hlog : n.log2 < precision := (Nat.log2_lt hne).mpr hlt
  have hprecision : precision = 53 := rfl
  have hmin : minExponent = -1074 := rfl
  have hmax : maxExponent = 971 := rfl
  have hone : Nat.log2 1 = 0 := by decide
  obtain ⟨k, hk⟩ : ∃ k, precision = n.log2 + 1 + k := ⟨precision - (n.log2 + 1), by omega⟩
  -- the first exponent is one too small, and the next one fits
  have hleast : max ((n.log2 : Int) - (Nat.log2 1 : Nat) - (precision : Nat)) minExponent =
      -((k + 1 : Nat) : Int) := by omega
  have hnext : -((k + 1 : Nat) : Int) + 1 = -(k : Int) := by omega
  have hlarge : ¬n * 2 ^ (k + 1) < 2 ^ precision := by
    rw [Nat.not_lt]
    calc 2 ^ precision = 2 ^ n.log2 * 2 ^ (k + 1) := by rw [← Nat.pow_add]; congr 1; omega
      _ ≤ n * 2 ^ (k + 1) := Nat.mul_le_mul_right _ hlow
  have hfits : n * 2 ^ k < 2 ^ precision := by
    calc n * 2 ^ k < 2 ^ (n.log2 + 1) * 2 ^ k :=
          Nat.mul_lt_mul_of_pos_right hhigh (Nat.two_pow_pos k)
      _ = 2 ^ precision := by rw [← Nat.pow_add, hk]
  refine ⟨k, ?_⟩
  unfold Double.ofRatio?
  rw [if_neg hne]
  simp only [hleast, hnext, mantissaAt_neg, show Nat.pow 2 precision = 2 ^ precision from rfl]
  rw [if_neg hlarge, if_pos hfits, if_neg (by omega), mantissaAt_neg]
  rfl

/-! ## The shortest decimal number -/

section

variable {n k q j : Nat}

/-- What is rounded to a double is at most half a unit away from it. -/
theorem interval_eq (x : Double) :
    ∃ d, 0 < d ∧ d ≤ 2 ∧ x.interval = (4 * x.mantissa - d, 4 * x.mantissa + 2) := by
  unfold Double.interval
  simp only
  split
  · exact ⟨1, Nat.one_pos, Nat.le_succ 1, rfl⟩
  · exact ⟨2, Nat.two_pos, Nat.le_refl 2, rfl⟩

/-- A decimal number without places is read as an integer only if it is the integer: the next ones are
further away than half a unit. -/
theorem reads_iff (hpos : 0 < n) : (scaled n k).reads ⟨q, (j : Int)⟩ = true ↔ q * 10 ^ j = n := by
  have hk : 0 < 2 ^ k := Nat.two_pow_pos k
  have hn : 0 < n * 2 ^ k := Nat.mul_pos hpos hk
  have hvalue : 4 * q * 10 ^ j * 2 ^ k = 4 * (q * 10 ^ j * 2 ^ k) := by
    simp only [Nat.mul_assoc]
  have apart : ∀ {a c : Nat}, a < c → a * 2 ^ k + 2 ^ k ≤ c * 2 ^ k := by
    intro a c h
    rw [← Nat.succ_mul]
    exact Nat.mul_le_mul_right _ h
  obtain ⟨d, hd, hd', hinterval⟩ := interval_eq (scaled n k)
  simp only [Double.reads, hinterval, scaled_mantissa, scaled_exponent, twoTo_neg, tenTo_natural,
    Nat.mul_one, hvalue]
  constructor
  · intro h
    rcases Nat.lt_trichotomy (q * 10 ^ j) n with hlt | heq | hlt
    · have := apart hlt
      split at h <;> simp only [Bool.and_eq_true, decide_eq_true_eq] at h <;> omega
    · exact heq
    · have := apart hlt
      split at h <;> simp only [Bool.and_eq_true, decide_eq_true_eq] at h <;> omega
  · intro h
    rw [h]
    split <;> simp only [Bool.and_eq_true, decide_eq_true_eq] <;> omega

theorem distance_eq_zero : (scaled (q * 10 ^ j) k).distance ⟨q, (j : Int)⟩ = 0 := by
  simp [Double.distance, twoTo_neg, tenTo_natural]

/-- The search for the fewest digits ends at the integer itself. -/
theorem shortestFrom_natural (hpos : 0 < n) {digits : Nat} (fuel count : Nat) (hcount : count ≤ digits)
    (hfuel : digits < count + fuel) :
    ∃ q j : Nat, (scaled n k).shortestFrom ((digits : Int) - 1) fuel count = ⟨q, j⟩ ∧ q * 10 ^ j = n := by
  induction fuel generalizing count with
  | zero => omega
  | succ fuel ih =>
    obtain ⟨j, rfl⟩ : ∃ j, digits = count + j := ⟨digits - count, by omega⟩
    have hexponent : ((count + j : Nat) : Int) - 1 - count + 1 = (j : Nat) := by omega
    have hquotient : n * 2 ^ k * 1 * 1 / (2 ^ k * 10 ^ j) = n / 10 ^ j := by
      rw [Nat.mul_one, Nat.mul_one, Nat.mul_comm n, Nat.mul_div_mul_left _ _ (Nat.two_pow_pos k)]
    rw [Double.shortestFrom]
    simp only [hexponent, scaled_mantissa, scaled_exponent, twoTo_neg, tenTo_natural, hquotient]
    by_cases hexact : n / 10 ^ j * 10 ^ j = n
    · refine ⟨n / 10 ^ j, j, ?_, hexact⟩
      have hbelow := (reads_iff (k := k) hpos).mpr hexact
      have hdistance : (scaled n k).distance ⟨n / 10 ^ j, (j : Int)⟩ = 0 := by
        have h := distance_eq_zero (q := n / 10 ^ j) (j := j) (k := k)
        rwa [hexact] at h
      rw [hbelow, hdistance]
      simp
    · have hj : j ≠ 0 := by
        rintro rfl
        simp at hexact
      have hbelow : (scaled n k).reads ⟨n / 10 ^ j, (j : Int)⟩ = false := by
        rw [← Bool.not_eq_true, reads_iff hpos]
        exact hexact
      have habove : (scaled n k).reads ⟨n / 10 ^ j + 1, (j : Int)⟩ = false := by
        rw [← Bool.not_eq_true, reads_iff hpos]
        intro h
        have hquot : n / 10 ^ j = n / 10 ^ j + 1 :=
          Nat.div_eq_of_eq_mul_left (Nat.pow_pos (by decide)) h.symm
        omega
      rw [hbelow, habove]
      simpa using ih (count + 1) (by omega) (by omega)

/-- Zeros that are taken off the digits go to the exponent. -/
theorem stripped_natural (fuel : Nat) :
    ∃ q' j' : Nat, Decimal.stripped fuel ⟨q, (j : Int)⟩ = ⟨q', j'⟩ ∧ q' * 10 ^ j' = q * 10 ^ j := by
  induction fuel generalizing q j with
  | zero => exact ⟨q, j, rfl, rfl⟩
  | succ fuel ih =>
    rw [Decimal.stripped]
    simp only
    split
    next h =>
      obtain ⟨q', j', hstripped, hvalue⟩ := ih (q := q / 10) (j := j + 1)
      refine ⟨q', j', ?_, ?_⟩
      · rw [← hstripped]
        rfl
      · rw [hvalue, Nat.pow_succ, Nat.mul_comm (10 ^ j), ← Nat.mul_assoc,
          Nat.div_mul_cancel (Nat.dvd_of_mod_eq_zero h.2)]
    next => exact ⟨q, j, rfl, rfl⟩

/-! ## Digits -/

theorem toDigits_mul_pow (hq : 0 < q) :
    Nat.toDigits 10 (q * 10 ^ j) = Nat.toDigits 10 q ++ List.replicate j '0' := by
  induction j with
  | zero => simp
  | succ j ih =>
    have hpos : 0 < q * 10 ^ j := Nat.mul_pos hq (Nat.pow_pos (by decide))
    have h := Nat.toDigits_append_toDigits (b := 10) (d := 0) (by decide) hpos (by decide)
    rw [ih] at h
    rw [Nat.pow_succ, ← Nat.mul_assoc, Nat.mul_comm (q * 10 ^ j) 10, ← Nat.add_zero (10 * _), ← h,
      List.replicate_succ', List.append_assoc]
    rfl

theorem decimal_text (hpos : 0 < q * 10 ^ j) :
    Decimal.text ⟨q, (j : Int)⟩ = (q * 10 ^ j).repr := by
  have hq : 0 < q := Nat.pos_of_mul_pos_right hpos
  rw [Decimal.text, Nat.repr_eq_ofList_toDigits, toDigits_mul_pow hq]
  simp

/-- An integer that is not rounded is written with its own digits. -/
theorem scaled_text (hpos : 0 < n) (hlt : n < 10 ^ 17) : (scaled n k).text = n.repr := by
  have hn : n * 2 ^ k ≠ 0 := Nat.ne_of_gt (Nat.mul_pos hpos (Nat.two_pow_pos k))
  have hle : 2 ^ k ≤ n * 2 ^ k := Nat.le_mul_of_pos_left _ hpos
  have hdigits : (Nat.toDigits 10 n).length ≤ 17 :=
    (Nat.length_toDigits_le_iff (by decide) (by decide)).mpr hlt
  have hplace : leadingPlace (n * 2 ^ k * 1) (2 ^ k) = ((Nat.toDigits 10 n).length : Int) - 1 := by
    rw [leadingPlace, if_pos (by omega), Nat.mul_one, Nat.mul_div_cancel _ (Nat.two_pow_pos k)]
  obtain ⟨q, j, hshortest, hvalue⟩ := shortestFrom_natural (k := k) hpos 17 1
    (Nat.length_toDigits_pos (b := 10) (n := n)) (by omega)
  obtain ⟨q', j', hstripped, hvalue'⟩ := stripped_natural (q := q) (j := j) 17
  rw [hvalue] at hvalue'
  rw [Double.text, scaled_mantissa, if_neg hn, Double.shortest]
  simp only [scaled_mantissa, scaled_exponent, twoTo_neg, hplace]
  rw [hshortest, hstripped, decimal_text (hvalue' ▸ hpos), hvalue']

end

/-- An integer below `2 ^ 53` is read and written as it is. -/
theorem ofRatio?_text {n : Nat} (hlt : n < 2 ^ precision) :
    (Double.ofRatio? n 1).map Double.text = some n.repr := by
  rcases Nat.eq_zero_or_pos n with rfl | hpos
  · rfl
  · obtain ⟨k, hk⟩ := ofRatio?_natural hpos hlt
    have hsmall : n < 10 ^ 17 := Nat.lt_trans hlt (by decide)
    rw [hk, Option.map_some, scaled_text hpos hsmall]

end BaselineAudit.Number

namespace BaselineAudit.Script.Number

open BaselineAudit.Number

/-- The value of a number that is written as an integer: with a mark for its base, or with decimal digits
alone. -/
def integer? (literal : String) : Option Nat :=
  let cs := literal.toList.filter (· != '_')
  match based? cs with
  | some (base, digits) => some (inBase base digits)
  | none => if !cs.isEmpty && cs.all Char.isDigit then some (inBase 10 cs) else none

theorem decimalText_zero {digits : List Char} (hlt : inBase 10 digits < 2 ^ precision) :
    decimalText digits 0 = (inBase 10 digits).repr := by
  have hlength : (Nat.toDigits 10 (inBase 10 digits)).length ≤ 17 :=
    (Nat.length_toDigits_le_iff (by decide) (by decide)).mpr (Nat.lt_trans hlt (by decide))
  have hlimit : exponentLimit = 400 := rfl
  have hplace : ¬(0 : Int) + (Nat.toDigits 10 (inBase 10 digits)).length < -(exponentLimit : Int) := by
    omega
  have hplace' : ¬(exponentLimit : Int) < 0 + (Nat.toDigits 10 (inBase 10 digits)).length := by
    omega
  rw [decimalText]
  simp only [hplace, hplace', decide_false, Bool.or_false, decide_eq_true_eq, if_false]
  split
  next h => rw [h]; rfl
  next => rw [show tenTo 0 = (1, 1) from rfl, Nat.mul_one, ofRatio?_text hlt, Option.getD_some]

theorem span_of_forall {p : Char → Bool} {cs : List Char} (h : ∀ c ∈ cs, p c = true) :
    cs.span p = (cs, []) := by
  rw [List.span_eq_takeWhile_dropWhile, List.takeWhile_eq_self_iff.mpr h,
    List.dropWhile_eq_nil_iff.mpr h]

/-- A number that is written as an integer below `2 ^ 53` is shown in decimal. -/
theorem text_of_integer? {literal : String} {n : Nat} (h : integer? literal = some n)
    (hlt : n < 2 ^ precision) : text literal = n.repr := by
  unfold integer? at h
  unfold text
  simp only at h ⊢
  generalize literal.toList.filter (· != '_') = cs at h ⊢
  cases hbased : based? cs with
  | some marked =>
    rw [hbased] at h
    obtain rfl := Option.some.inj h
    simp only [naturalText, ofRatio?_text hlt, Option.getD_some]
  | none =>
    rw [hbased] at h
    simp only at h ⊢
    split at h
    next hdigits =>
      obtain rfl := Option.some.inj h
      have hdigit := List.all_eq_true.mp (Bool.and_eq_true_iff.mp hdigits).2
      have without : ∀ d : Char, d.isDigit = false → ∀ c ∈ cs, c ≠ d := by
        rintro d hd c hc rfl
        rw [hdigit c hc] at hd
        exact absurd hd (by decide)
      have hmark : cs.span (fun c => !(c == 'e' || c == 'E')) = (cs, []) :=
        span_of_forall fun c hc => by simp [without 'e' rfl c hc, without 'E' rfl c hc]
      have hpoint : cs.span (· != '.') = (cs, []) :=
        span_of_forall fun c hc => by simp [without '.' rfl c hc]
      rw [hmark, hpoint]
      simpa [show exponentOf [] = 0 from rfl] using decimalText_zero hlt
    next => exact absurd h (by simp)

end BaselineAudit.Script.Number
