import BaselineAudit.Pattern.Basic

/-!
# ASCII letters

Capitals and small letters by their numbers, and what changes with the case of a letter.

* `toLower_eq_iff`: a small letter is the small form of itself and of its capital.
* `CharSet.contains_anyCase`: this is what a pattern in either case looks for. The letters `s` and `k`
  have more forms.
* `Text.isWordChar_of_isAlphanum`, `Text.isBlank_of_isLower`: letters stand in words and are not blank.
-/

namespace BaselineAudit

/-! ## Case -/

theorem isUpper_iff {c : Char} : c.isUpper = true ↔ 65 ≤ c.toNat ∧ c.toNat ≤ 90 := by
  delta Char.isUpper
  simp [UInt32.le_iff_toNat_le, ← Char.toNat_val]

theorem isLower_iff {c : Char} : c.isLower = true ↔ 97 ≤ c.toNat ∧ c.toNat ≤ 122 := by
  delta Char.isLower
  simp [UInt32.le_iff_toNat_le, ← Char.toNat_val]

theorem ascii_of_isUpper {c : Char} (h : c.isUpper = true) : c.toNat < 0x80 := by
  have := isUpper_iff.mp h
  omega

theorem ascii_of_isLower {c : Char} (h : c.isLower = true) : c.toNat < 0x80 := by
  have := isLower_iff.mp h
  omega

theorem isAlphanum_iff {c : Char} :
    c.isAlphanum = true ↔ c.isUpper = true ∨ c.isLower = true ∨ c.isDigit = true := by
  have h : c.isAlphanum = (c.isUpper || c.isLower || c.isDigit) := rfl
  rw [h, Bool.or_eq_true, Bool.or_eq_true, or_assoc]

theorem isAlphanum_of_isUpper {c : Char} (h : c.isUpper = true) : c.isAlphanum = true :=
  isAlphanum_iff.mpr (.inl h)

theorem isAlphanum_of_isLower {c : Char} (h : c.isLower = true) : c.isAlphanum = true :=
  isAlphanum_iff.mpr (.inr (.inl h))

theorem ascii_of_isAlphanum {c : Char} (h : c.isAlphanum = true) : c.toNat < 0x80 := by
  rcases isAlphanum_iff.mp h with h | h | h
  · exact ascii_of_isUpper h
  · exact ascii_of_isLower h
  · have hd : c.toNat ≤ 57 := (Char.isDigit_iff_toNat.mp h).2
    omega

theorem isUpper_eq_false_of_isLower {c : Char} (h : c.isLower = true) : c.isUpper = false := by
  have := isLower_iff.mp h
  rw [Bool.eq_false_iff, ne_eq, isUpper_iff]
  omega

theorem toLower_of_not_isUpper {c : Char} (h : c.isUpper = false) : c.toLower = c := by
  unfold Char.toLower Char.isUpper at *
  rw [dif_neg (by simpa using h)]

theorem map_toLower_of_not_isUpper {cs : List Char} (h : ∀ c ∈ cs, c.isUpper = false) :
    cs.map Char.toLower = cs := by
  rw [List.map_congr_left fun c hc => toLower_of_not_isUpper (h c hc), List.map_id']

theorem toNat_toLower {c : Char} (h : c.isUpper = true) : c.toLower.toNat = c.toNat + 32 := by
  have hc := isUpper_iff.mp h
  unfold Char.isUpper at h
  unfold Char.toLower
  rw [dif_pos (by simpa using h), ← Char.toNat_val, ← Char.toNat_val]
  simp only [UInt32.toNat_add]
  rw [← Char.toNat_val] at hc
  show (c.val.toNat + 32) % 2 ^ 32 = _
  omega

theorem isUpper_toLower (c : Char) : c.toLower.isUpper = false := by
  cases h : c.isUpper with
  | false => rw [toLower_of_not_isUpper h, h]
  | true =>
    have := toNat_toLower h
    have := isUpper_iff.mp h
    rw [Bool.eq_false_iff, ne_eq, isUpper_iff]
    omega

theorem isLower_toLower {c : Char} (h : c.isAlpha = true) : c.toLower.isLower = true := by
  rcases Bool.or_eq_true _ _ ▸ h with h | h
  · have := toNat_toLower h
    have := isUpper_iff.mp h
    rw [isLower_iff]
    omega
  · rwa [toLower_of_not_isUpper (isUpper_eq_false_of_isLower h)]

theorem toLower_of_isDigit {c : Char} (h : c.isDigit = true) : c.toLower = c := by
  refine toLower_of_not_isUpper ?_
  have hd : c.toNat ≤ 57 := (Char.isDigit_iff_toNat.mp h).2
  rw [Bool.eq_false_iff, ne_eq, isUpper_iff]
  omega

theorem isAlphanum_toLower {c : Char} (h : c.isAlphanum = true) : c.toLower.isAlphanum = true := by
  rcases Bool.or_eq_true _ _ ▸ h with hletter | hdigit
  · exact isAlphanum_of_isLower (isLower_toLower hletter)
  · rwa [toLower_of_isDigit hdigit]

theorem toNat_toUpper {c : Char} (h : c.isLower = true) : c.toUpper.toNat + 32 = c.toNat := by
  have hc := isLower_iff.mp h
  unfold Char.isLower at h
  unfold Char.toUpper
  rw [dif_pos (by simpa using h), ← Char.toNat_val, ← Char.toNat_val]
  simp only [UInt32.toNat_add]
  rw [← Char.toNat_val] at hc
  show (c.val.toNat + 4294967264) % 2 ^ 32 + 32 = _
  omega

theorem isUpper_toUpper {c : Char} (h : c.isLower = true) : c.toUpper.isUpper = true := by
  have := toNat_toUpper h
  have := isLower_iff.mp h
  rw [isUpper_iff]
  omega

/-- A small letter is the small form of itself and of its capital. -/
theorem toLower_eq_iff {c d : Char} (hd : d.isLower = true) :
    c.toLower = d ↔ c = d ∨ c = d.toUpper := by
  have hup := toNat_toUpper hd
  cases hc : c.isUpper with
  | false =>
    rw [toLower_of_not_isUpper hc]
    refine ⟨.inl, fun h => h.resolve_right fun h => ?_⟩
    rw [h, isUpper_toUpper hd] at hc
    exact absurd hc (by decide)
  | true =>
    have hlow := toNat_toLower hc
    have hcap := isUpper_iff.mp hc
    have hsmall := isLower_iff.mp hd
    simp only [← Char.toNat_inj]
    omega

/-! ## Classes -/

/-- A small letter other than `s` and `k` is looked for in its two cases. -/
theorem CharSet.contains_anyCase {c d : Char} (hd : d.isLower = true) (hs : d ≠ 's') (hk : d ≠ 'k') :
    (anyCase d).contains c = true ↔ c.toLower = d := by
  have hlow := toLower_of_not_isUpper (isUpper_eq_false_of_isLower hd)
  have hany : anyCase d = union (one d) (one d.toUpper) := by
    simp only [anyCase, hlow, beq_iff_eq, hs, hk, if_false]
  rw [toLower_eq_iff hd, hany]
  simp only [contains, Bool.or_eq_true, beq_iff_eq]
  rw [eq_comm, @eq_comm _ d.toUpper]

theorem Text.isWordChar_of_isAlphanum {c : Char} (h : c.isAlphanum = true) : isWordChar c = true := by
  unfold isWordChar
  simp only [ascii_of_isAlphanum h, if_true, h, Bool.true_or]

theorem Text.isBlank_of_isLower {c : Char} (h : c.isLower = true) : isBlank c = false := by
  have := isLower_iff.mp h
  simp only [isBlank, Bool.or_eq_false_iff, Bool.and_eq_false_iff, decide_eq_false_iff_not,
    beq_eq_false_iff_ne]
  omega

end BaselineAudit
