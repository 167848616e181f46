import BaselineAudit.Proofs.Text.Bytes
import Mathlib.Algebra.GroupWithZero.Nat

/-!
# The order of texts

Texts are ordered by their characters, from the first one on. This is also the order of their bytes.

* `Text.digitBytes`: the bytes of a character are the digits of its number.
* `Text.utf8EncodeChar_append_lt`: they are smaller for a smaller character, whatever follows them.
* `Text.bytes_toList_lt`: so a smaller text has smaller bytes.
-/

namespace BaselineAudit.Text

/-! ## Characters by their digits -/

/-- A number as a first byte, which counts from `mark`, and `k` digits to the base 64 behind it. -/
def digitBytes (mark : Nat) : (k : Nat) → Nat → List UInt8
  | 0, n => [UInt8.ofNat (mark + n)]
  | k + 1, n => digitBytes mark k (n / 64) ++ [UInt8.ofNat (n % 64 + 128)]

/-- The mark of the first byte of a character, and how many bytes stand behind it. -/
def layout (n : Nat) : Nat × Nat :=
  if n ≤ 127 then (0, 0) else if n ≤ 2047 then (192, 1) else if n ≤ 65535 then (224, 2) else (240, 3)

/-- The first byte of a character, as a number. -/
def firstByte (n : Nat) : Nat := (layout n).1 + n / 64 ^ (layout n).2

theorem toNat_lt (c : Char) : c.val.toNat < 1114112 := by
  rcases c.valid with h | h
  · exact Nat.lt_trans h (by decide)
  · exact h.2

theorem utf8EncodeChar_eq (c : Char) :
    String.utf8EncodeChar c = digitBytes (layout c.val.toNat).1 (layout c.val.toNat).2 c.val.toNat := by
  have hc := toNat_lt c
  unfold String.utf8EncodeChar layout
  simp only
  generalize c.val.toNat = n at *
  split_ifs
  · simp [digitBytes]
  · simp [digitBytes, Nat.add_comm, Nat.mod_eq_of_lt (show n / 64 < 32 by omega)]
  · simp [digitBytes, Nat.add_comm, Nat.div_div_eq_div_mul,
      Nat.mod_eq_of_lt (show n / 4096 < 16 by omega)]
  · simp [digitBytes, Nat.add_comm, Nat.div_div_eq_div_mul,
      Nat.mod_eq_of_lt (show n / 262144 < 8 by omega)]

theorem firstByte_lt {n : Nat} (hn : n < 1114112) : firstByte n < 256 := by
  unfold firstByte layout
  split_ifs <;> simp only <;> omega

/-- Characters with a smaller number have no more bytes, and a smaller first byte if they have fewer. -/
theorem layout_eq_or_firstByte_lt {m n : Nat} (h : m < n) (hn : n < 1114112) :
    layout m = layout n ∨ firstByte m < firstByte n := by
  unfold firstByte layout
  split_ifs <;> simp only [true_or] <;> omega

/-! ## Order -/

theorem ofNat_lt_ofNat {m n : Nat} (hn : n < 256) (h : m < n) : UInt8.ofNat m < UInt8.ofNat n := by
  rw [UInt8.lt_iff_toNat_lt, UInt8.toNat_ofNat', UInt8.toNat_ofNat']
  omega

theorem exists_digitBytes_eq_cons (mark k n : Nat) :
    ∃ rest, digitBytes mark k n = UInt8.ofNat (mark + n / 64 ^ k) :: rest := by
  induction k generalizing n with
  | zero => exact ⟨[], by simp [digitBytes]⟩
  | succ k ih =>
    obtain ⟨rest, hrest⟩ := ih (n / 64)
    refine ⟨rest ++ [UInt8.ofNat (n % 64 + 128)], ?_⟩
    rw [digitBytes, hrest, Nat.div_div_eq_div_mul, Nat.pow_succ', List.cons_append]

theorem exists_utf8EncodeChar_eq_cons (c : Char) :
    ∃ rest, String.utf8EncodeChar c = UInt8.ofNat (firstByte c.val.toNat) :: rest := by
  rw [utf8EncodeChar_eq]
  exact exists_digitBytes_eq_cons _ _ _

/-- Of two numbers with equally many digits, the smaller one has smaller bytes. -/
theorem digitBytes_append_lt {mark k m n : Nat} (h : m < n) (hn : mark + n / 64 ^ k < 256)
    (as bs : List UInt8) : digitBytes mark k m ++ as < digitBytes mark k n ++ bs := by
  induction k generalizing m n as bs with
  | zero =>
    rw [Nat.pow_zero, Nat.div_one] at hn
    exact List.cons_lt_cons_iff.mpr (.inl (ofNat_lt_ofNat hn (by omega)))
  | succ k ih =>
    rw [Nat.pow_succ', ← Nat.div_div_eq_div_mul] at hn
    rw [digitBytes, digitBytes, List.append_assoc, List.append_assoc]
    -- the leading digits decide, and the last one if they are the same
    obtain hlead | ⟨hlead, hlast⟩ : m / 64 < n / 64 ∨ m / 64 = n / 64 ∧ m % 64 < n % 64 := by omega
    · exact ih hlead hn _ _
    · rw [hlead]
      refine List.append_left_lt (List.cons_lt_cons_iff.mpr (.inl (ofNat_lt_ofNat ?_ ?_))) <;> omega

/-- The bytes of a smaller character are smaller, whatever follows them. -/
theorem utf8EncodeChar_append_lt {c d : Char} (h : c < d) (as bs : List UInt8) :
    String.utf8EncodeChar c ++ as < String.utf8EncodeChar d ++ bs := by
  have hlt : c.val.toNat < d.val.toNat := UInt32.lt_iff_toNat_lt.mp h
  have hfirst := firstByte_lt (toNat_lt d)
  rcases layout_eq_or_firstByte_lt hlt (toNat_lt d) with heq | hless
  · rw [utf8EncodeChar_eq, utf8EncodeChar_eq, heq]
    exact digitBytes_append_lt hlt hfirst as bs
  · obtain ⟨restc, hc⟩ := exists_utf8EncodeChar_eq_cons c
    obtain ⟨restd, hd⟩ := exists_utf8EncodeChar_eq_cons d
    rw [hc, hd]
    exact List.cons_lt_cons_iff.mpr (.inl (ofNat_lt_ofNat hfirst hless))

theorem bytes_lt_bytes {cs ds : List Char} (h : cs < ds) : bytes cs < bytes ds := by
  induction cs generalizing ds with
  | nil =>
    cases ds with
    | nil => exact absurd h (List.not_lt_nil [])
    | cons d ds =>
      obtain ⟨rest, hd⟩ := exists_utf8EncodeChar_eq_cons d
      rw [bytes_nil, bytes_cons, hd]
      exact List.nil_lt_cons _ _
  | cons c cs ih =>
    cases ds with
    | nil => exact absurd h (List.not_lt_nil _)
    | cons d ds =>
      rcases List.cons_lt_cons_iff.mp h with hcd | ⟨rfl, hrest⟩
      · exact utf8EncodeChar_append_lt hcd _ _
      · exact List.append_left_lt (ih hrest)

/-- A smaller text has smaller bytes. -/
theorem bytes_toList_lt {s t : String} (h : s < t) : bytes s.toList < bytes t.toList :=
  bytes_lt_bytes (String.lt_iff.mp h)

end BaselineAudit.Text
