import BaselineAudit.Proofs.Text.Letters
import BaselineAudit.Text.Words

/-!
# Words of a text

What runs and the words of a name are made of, and where the words of a name end.

* `Text.notGap_of_mem_runsFrom`, `Text.mem_of_mem_runsFrom`: runs hold characters of the text, and no
  gap.
* `Text.nameWordsFrom_append`: letters without a capital are read to their end, which is that of the text
  or in front of a capital.
* `Text.nameWordsFrom_capital`, `Text.nameWordsFrom_capitals`: a capital starts a word if a small letter
  follows, also behind another capital.
* `Text.smallWord_of_ascii`: words of ASCII characters in small letters.
-/

namespace BaselineAudit.Text

/-! ## Runs -/

/-- Runs hold no gap. -/
theorem notGap_of_mem_runsFrom {isGap : Char → Bool} {run cs : List Char}
    (hrun : ∀ c ∈ run, isGap c = false) :
    ∀ r ∈ runsFrom isGap run cs, ∀ c ∈ r, isGap c = false := by
  induction cs generalizing run with
  | nil =>
    intro r hr
    rw [runsFrom] at hr
    split at hr
    · exact absurd hr List.not_mem_nil
    · obtain rfl := List.mem_singleton.mp hr
      simpa using hrun
  | cons c cs ih =>
    intro r hr
    rw [runsFrom] at hr
    split at hr
    · split at hr
      · exact ih (by simp) r hr
      · rcases List.mem_cons.mp hr with rfl | hr
        · simpa using hrun
        · exact ih (by simp) r hr
    next hc =>
      refine ih (fun d hd => ?_) r hr
      rcases List.mem_cons.mp hd with rfl | hd
      · simpa using hc
      · exact hrun d hd

/-- Runs hold characters of the text. -/
theorem mem_of_mem_runsFrom {isGap : Char → Bool} {run cs r : List Char} {c : Char}
    (hr : r ∈ runsFrom isGap run cs) (hc : c ∈ r) : c ∈ run ∨ c ∈ cs := by
  fun_induction runsFrom isGap run cs <;> grind

/-- A text without gaps is one run. -/
theorem runs_of_noGap {isGap : Char → Bool} {cs : List Char} (hne : cs ≠ [])
    (h : ∀ c ∈ cs, isGap c = false) : runs isGap cs = [cs] := by
  suffices hfrom : ∀ run, run.reverse ++ cs ≠ [] → runsFrom isGap run cs = [run.reverse ++ cs] from
    hfrom [] hne
  clear hne
  induction cs with
  | nil =>
    intro run hrun
    rw [runsFrom, if_neg (by simpa using hrun), List.append_nil]
  | cons c cs ih =>
    intro run _
    obtain ⟨hc, hcs⟩ := List.forall_mem_cons.mp h
    rw [runsFrom, if_neg (by simp [hc]), ih hcs _ (by simp)]
    simp

/-! ## Words of a name -/

/-- The words of a run hold its characters and no others. -/
theorem mem_of_mem_nameWordsFrom {mode : Mode} {word cs w : List Char} {c : Char}
    (hw : w ∈ nameWordsFrom mode word cs) (hc : c ∈ w) : c ∈ word ∨ c ∈ cs := by
  fun_induction nameWordsFrom mode word cs <;> grind

/-- Letters without a capital are read to their end. In front of a capital, the last one is small. -/
theorem nameWordsFrom_append {mode : Mode} {word w rest : List Char} (hne : w ≠ [])
    (hw : ∀ c ∈ w, isCapital c = false)
    (hrest : ∀ d ∈ rest.head?, isCapital d = true ∧ ∀ c ∈ w.getLast?, isSmall c = true) :
    nameWordsFrom mode word (w ++ rest) = (word.reverse ++ w) :: nameWordsFrom .fresh [] rest := by
  induction w generalizing mode word with
  | nil => exact absurd rfl hne
  | cons c w ih =>
    obtain ⟨hc, hw⟩ := List.forall_mem_cons.mp hw
    cases w with
    | nil =>
      cases rest with
      | nil => simp [nameWordsFrom]
      | cons d rest =>
        obtain ⟨hd, hsmall⟩ := hrest d rfl
        have hpush : mode.push c = .small := if_pos (hsmall c rfl)
        rw [List.singleton_append, nameWordsFrom, if_pos (by simp [hpush, hd])]
        simp
    | cons d w =>
      have hd := hw d List.mem_cons_self
      rw [List.cons_append, List.cons_append, nameWordsFrom, if_neg (by simp [hd]),
        if_neg (by simp [hc]), ← List.cons_append, ih (List.cons_ne_nil d w) hw]
      · simp
      · simpa [List.getLast?_cons_cons] using hrest

/-- A capital starts a word. -/
theorem nameWordsFrom_capital {c d : Char} (rest : List Char) (hc : isCapital c = true)
    (hsmall : isSmall c = false) :
    nameWordsFrom .fresh [] (c :: d :: rest) = nameWordsFrom .capital [c] (d :: rest) := by
  have hpush : Mode.fresh.push c = .capital := by simp [Mode.push, hc, hsmall]
  rw [nameWordsFrom, hpush, if_neg (by simp), if_neg (by simp)]

/-- Of two capitals, the second one starts a word if a small letter follows. -/
theorem nameWordsFrom_capitals {c d e : Char} (rest : List Char) (hc : isCapital c = true)
    (hcsmall : isSmall c = false) (hd : isCapital d = true) (hdsmall : isSmall d = false)
    (he : isSmall e = true) :
    nameWordsFrom .fresh [] (c :: d :: e :: rest) = [c] :: nameWordsFrom .fresh [d] (e :: rest) := by
  have hpush : Mode.capital.push d = .capital := by simp [Mode.push, hd, hdsmall]
  rw [nameWordsFrom_capital _ hc hcsmall, nameWordsFrom, hpush, if_neg (by simp),
    if_pos (by simp [hd, he])]
  rfl

/-! ## ASCII characters -/

section Ascii

variable {c : Char}

theorem isCapital_of_ascii (h : c.toNat < 0x80) : isCapital c = c.isUpper := if_pos h

theorem isSmall_of_ascii (h : c.toNat < 0x80) : isSmall c = c.isLower := if_pos h

theorem isCapital_of_isUpper (h : c.isUpper = true) : isCapital c = true := by
  rw [isCapital_of_ascii (ascii_of_isUpper h), h]

theorem isCapital_of_isLower (h : c.isLower = true) : isCapital c = false := by
  rw [isCapital_of_ascii (ascii_of_isLower h), isUpper_eq_false_of_isLower h]

theorem isSmall_of_isLower (h : c.isLower = true) : isSmall c = true := by
  rw [isSmall_of_ascii (ascii_of_isLower h), h]

theorem isSmall_of_isUpper (h : c.isUpper = true) : isSmall c = false := by
  have := isUpper_iff.mp h
  rw [isSmall_of_ascii (ascii_of_isUpper h), Bool.eq_false_iff, ne_eq, isLower_iff]
  omega

theorem isAlphanumeric_of_ascii (h : c.toNat < 0x80) : isAlphanumeric c = c.isAlphanum := if_pos h

theorem small_of_ascii (h : c.toNat < 0x80) : small c = [c.toLower] := if_pos h

theorem smallWord_of_ascii {w : List Char} (h : ∀ c ∈ w, c.toNat < 0x80) :
    smallWord w = w.map Char.toLower := by
  fun_induction smallWord w with
  | case1 => rfl
  | case2 => exact absurd (h 'Σ' List.mem_cons_self) (by decide)
  | case3 c => exact small_of_ascii (h c List.mem_cons_self)
  | case4 c cs _ ih =>
    obtain ⟨hc, hcs⟩ := List.forall_mem_cons.mp h
    rw [small_of_ascii hc, ih hcs]
    rfl

end Ascii

end BaselineAudit.Text
