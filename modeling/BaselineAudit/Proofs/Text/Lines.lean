import BaselineAudit.Proofs.Text.Location
import BaselineAudit.Proofs.Text.Words
import BaselineAudit.Text.Slice

/-!
# Lines of a text

Which locations a text has, and when the places in one text are those in another.

* `Location.IsIn`: a text has a location. It has those of all offsets up to its end
  (`Location.isIn_move`), and those of offsets in front of the end are on one of the lines that
  `Text.lineCount` counts (`Text.line_move_le_lineCount`).
* `Text.StandsAt`: one text stands in another. So does every slice (`Text.slice?_standsAt`), and there is
  one between any two places where characters end (`Text.exists_slice?`).
* `Text.Aligned`: two texts have their newlines at the same offsets.
-/

namespace BaselineAudit

/-! ## Locations of a text -/

namespace Location

/-- A text has a location: it has the line, and the column is at most one behind the end of it. -/
structure IsIn (cs : List Char) (l : Location) : Prop where
  line_pos : 1 ≤ l.line
  line_le : l.line ≤ cs.count '\n' + 1
  column_pos : 1 ≤ l.column
  column_le : ∃ w, (cs.splitOn '\n')[l.line - 1]? = some w ∧ l.column ≤ byteCount w + 1

/-- Only newlines lead to further lines. -/
theorem line_move_le (l : Location) (cs : List Char) (offset : Nat) :
    (l.move cs offset).line ≤ l.line + cs.count '\n' := by
  induction cs generalizing l offset with
  | nil => exact Nat.le_refl _
  | cons c cs ih =>
    rw [move]
    split
    · exact Nat.le_add_right _ _
    · have h := ih (l.step c) (offset - c.utf8Size)
      unfold step at h ⊢
      by_cases hc : c = '\n'
      · subst hc
        rw [if_pos rfl] at h ⊢
        rw [List.count_cons_self]
        simp only at h
        omega
      · rw [if_neg hc] at h ⊢
        rw [List.count_cons_of_ne hc]
        exact h

theorem splitOn_newline_cons (cs : List Char) :
    ('\n' :: cs).splitOn '\n' = [] :: cs.splitOn '\n' := by
  simp [List.splitOn_eq_splitOnP, List.splitOnP_cons_eq_if_modifyHead]

/-- A character that is no newline is on the first line. -/
theorem splitOn_cons {c : Char} (hc : c ≠ '\n') (cs : List Char) :
    ∃ w ws, cs.splitOn '\n' = w :: ws ∧ (c :: cs).splitOn '\n' = (c :: w) :: ws := by
  cases h : cs.splitOn '\n' with
  | nil => exact absurd h (List.splitOn_ne_nil _ _)
  | cons w ws =>
    refine ⟨w, ws, rfl, ?_⟩
    rw [List.splitOn_eq_splitOnP] at h ⊢
    simp [List.splitOnP_cons_eq_if_modifyHead, hc, h]

/-- The line that one comes to is long enough. A text that starts at `column` has more room on its
first line. -/
theorem exists_line_move (line column : Nat) (cs : List Char) {offset : Nat}
    (h : offset ≤ byteCount cs) :
    ∃ k w, (move ⟨line, column⟩ cs offset).line = line + k ∧ (cs.splitOn '\n')[k]? = some w ∧
      (move ⟨line, column⟩ cs offset).column ≤ (if k = 0 then column else 1) + byteCount w := by
  induction cs generalizing line column offset with
  | nil =>
    obtain rfl : offset = 0 := by simpa using h
    exact ⟨0, [], rfl, rfl, Nat.le_refl _⟩
  | cons c cs ih =>
    rw [byteCount_cons] at h
    rw [move]
    by_cases hc : c = '\n'
    · subst hc
      have hsize : '\n'.utf8Size = 1 := rfl
      rw [splitOn_newline_cons, hsize]
      split
      · exact ⟨0, [], rfl, rfl, by simp only [byteCount_nil, if_true]; omega⟩
      · obtain ⟨k, w, hline, hw, hcolumn⟩ :=
          ih (line + 1) 1 (show offset - 1 ≤ byteCount cs by omega)
        rw [step, if_pos rfl]
        refine ⟨k + 1, w, by simp only; omega, hw, ?_⟩
        simpa using hcolumn
    · obtain ⟨w₀, ws, hsplit, hcons⟩ := splitOn_cons hc cs
      rw [hcons]
      split
      · exact ⟨0, c :: w₀, rfl, rfl, by simp only [byteCount_cons, if_true]; omega⟩
      · obtain ⟨k, w, hline, hw, hcolumn⟩ :=
          ih line (column + c.utf8Size) (show offset - c.utf8Size ≤ byteCount cs by omega)
        rw [step, if_neg hc]
        rw [hsplit] at hw
        cases k with
        | zero =>
          obtain rfl : w₀ = w := by simpa using hw
          refine ⟨0, c :: w₀, hline, rfl, ?_⟩
          simp only [if_true, byteCount_cons] at hcolumn ⊢
          omega
        | succ k => exact ⟨k + 1, w, hline, hw, hcolumn⟩

theorem one_le_column_move (cs : List Char) (offset : Nat) :
    1 ≤ (move ⟨1, 1⟩ cs offset).column := by
  have h := LineIndex.locate_eq (String.ofList cs) offset
  rw [String.toList_ofList] at h
  rw [← h]
  exact Nat.le_add_left 1 _

/-- A text has the location of every offset up to its end. -/
theorem isIn_move {cs : List Char} {offset : Nat} (h : offset ≤ byteCount cs) :
    (move ⟨1, 1⟩ cs offset).IsIn cs := by
  obtain ⟨k, w, hline, hw, hcolumn⟩ := exists_line_move 1 1 cs h
  refine ⟨(le_move ⟨1, 1⟩ cs offset).1, ?_, ?_, w, ?_, ?_⟩
  · rw [Nat.add_comm]
    exact line_move_le ⟨1, 1⟩ cs offset
  · exact one_le_column_move cs offset
  · rw [hline, Nat.add_sub_cancel_left]
    exact hw
  · split at hcolumn <;> omega

end Location

namespace Text

/-- Offsets in front of the end of a text are on one of its lines. A newline at the end starts
none. -/
theorem line_move_le_lineCount (s : String) {offset : Nat} (h : offset < byteCount s.toList) :
    (Location.move ⟨1, 1⟩ s.toList offset).line ≤ lineCount s := by
  rcases List.eq_nil_or_concat s.toList with hnil | ⟨front, last, hs⟩
  · rw [hnil] at h
    exact absurd h (Nat.not_lt_zero _)
  have hcount : lineCount s = front.count '\n' + 1 := by
    have hne : s.isEmpty = false := by
      rw [String.isEmpty_eq_false_iff]
      rintro rfl
      simp at hs
    simp only [lineCount, hne, hs, List.concat_eq_append, List.getLast?_concat, List.count_append]
    by_cases hlast : last = '\n'
    · simp [hlast]
    · simp [hlast]
  rw [hs, List.concat_eq_append] at h ⊢
  rw [hcount, Nat.add_comm]
  have hfront := Location.line_move_le ⟨1, 1⟩ front
  by_cases ho : offset ≤ byteCount front
  · rw [Location.move_append_left _ _ _ ho]
    exact hfront offset
  · -- within the last character, which counts only behind its end
    obtain ⟨o, rfl⟩ := Nat.exists_eq_add_of_le (Nat.le_of_not_le ho)
    have hlast : o < last.utf8Size := by simpa using h
    rw [Location.move_append, Location.move, if_pos hlast]
    exact hfront (byteCount front)

/-! ## Counting newlines -/

/-- How many newlines there are in a text. -/
def newlines (s : String) : Nat := s.toList.count '\n'

@[simp] theorem newlines_append (s t : String) : newlines (s ++ t) = newlines s + newlines t := by
  simp [newlines]

/-- Lines that are joined have only the newlines between them. -/
theorem newlines_intercalate (sep : String) {lines : List String}
    (h : ∀ s ∈ lines, newlines s = 0) :
    newlines (sep.intercalate lines) = (lines.length - 1) * newlines sep := by
  induction lines with
  | nil => simp [newlines]
  | cons s lines ih =>
    have hs := h s List.mem_cons_self
    cases lines with
    | nil => simpa [String.intercalate_singleton] using hs
    | cons t lines =>
      rw [String.intercalate_cons_cons, newlines_append, newlines_append, hs,
        ih fun u hu => h u (List.mem_cons_of_mem _ hu)]
      simp only [List.length_cons, Nat.add_sub_cancel, Nat.add_mul]
      omega

/-- A text on one line has no newline. -/
theorem newlines_singleLine (s : String) : newlines (singleLine s) = 0 := by
  rw [singleLine, newlines_intercalate]
  · rw [show newlines " " = 0 by decide, Nat.mul_zero]
  · intro t ht
    obtain ⟨r, hr, rfl⟩ := List.mem_map.mp ht
    rw [newlines, String.toList_ofList, List.count_eq_zero]
    intro hmem
    have hblank : isBlank '\n' = false := notGap_of_mem_runsFrom (by simp) r hr _ hmem
    exact absurd hblank (by decide)

/-! ## Texts within a text -/

/-- A text stands in another one, from an offset on. -/
def StandsAt (cs : List Char) (start : Nat) (w : List Char) : Prop :=
  ∃ front back, cs = front ++ w ++ back ∧ byteCount front = start

namespace StandsAt

variable {cs v w : List Char} {start : Nat}

theorem le (h : StandsAt cs start w) : start + byteCount w ≤ byteCount cs := by
  obtain ⟨front, back, rfl, rfl⟩ := h
  simp only [byteCount_append]
  omega

theorem left (h : StandsAt cs start (v ++ w)) : StandsAt cs start v := by
  obtain ⟨front, back, rfl, hfront⟩ := h
  exact ⟨front, w ++ back, by simp, hfront⟩

theorem right (h : StandsAt cs start (v ++ w)) : StandsAt cs (start + byteCount v) w := by
  obtain ⟨front, back, rfl, hfront⟩ := h
  exact ⟨front ++ v, back, by simp, by simp [hfront]⟩

/-- What stands right behind a text makes a longer one with it. -/
theorem append (hv : StandsAt cs start v) (hw : StandsAt cs (start + byteCount v) w) :
    StandsAt cs start (v ++ w) := by
  obtain ⟨front, back, hcs, hfront⟩ := hv
  obtain ⟨front', back', hcs', hfront'⟩ := hw
  rw [hcs, List.append_assoc front'] at hcs'
  obtain ⟨rfl, rfl⟩ := append_inj_of_byteCount hcs' (by simp [hfront, hfront'])
  exact ⟨front, back', by rw [hcs]; simp, hfront⟩

/-- A text that stands between the ends of another one is a part of it. -/
theorem part {p : Nat} (hw : StandsAt cs start w) (hv : StandsAt cs p v) (hstart : start ≤ p)
    (hstop : p + byteCount v ≤ start + byteCount w) : ∃ x y, w = x ++ v ++ y := by
  obtain ⟨front, back, hcs, rfl⟩ := hw
  obtain ⟨front', back', hcs', rfl⟩ := hv
  rw [hcs, List.append_assoc, List.append_assoc] at hcs'
  -- the second text starts behind the start of the first one
  obtain ⟨x, rfl, hx⟩ : ∃ x, front' = front ++ x ∧ w ++ back = x ++ (v ++ back') := by
    rcases List.append_eq_append_iff.mp hcs' with ⟨x, hx, h⟩ | ⟨x, rfl, h⟩
    · exact ⟨x, hx, h⟩
    · have hnil : x = [] := by
        by_contra hne
        have := byteCount_pos hne
        rw [byteCount_append] at hstart
        omega
      subst hnil
      exact ⟨[], by simp, by simpa using h.symm⟩
  rw [byteCount_append] at hstop
  rw [← List.append_assoc] at hx
  -- and ends in front of its end
  rcases List.append_eq_append_iff.mp hx with ⟨y, hy, -⟩ | ⟨y, rfl, -⟩
  · have hnil : y = [] := by
      by_contra hne
      have := byteCount_pos hne
      have := congrArg byteCount hy
      simp only [byteCount_append] at this
      omega
    exact ⟨x, [], by rw [hy, hnil]; simp⟩
  · exact ⟨x, y, rfl⟩

/-- A text ends with the character that stands at its end. -/
theorem getLast?_eq {c : Char} {stop : Nat} (hw : StandsAt cs start w) (hc : StandsAt cs stop [c])
    (hstop : start + byteCount w = stop + c.utf8Size) (hne : w ≠ []) : w.getLast? = some c := by
  obtain ⟨front, back, hcs, hfront⟩ := hw
  obtain ⟨front', back', hcs', hfront'⟩ := hc
  have hsize : byteCount (front ++ w) = byteCount (front' ++ [c]) := by
    simp only [byteCount_append, byteCount_cons, byteCount_nil, hfront, hfront']
    omega
  obtain ⟨hsame, -⟩ := append_inj_of_byteCount (hcs.symm.trans hcs') hsize
  have hlast := congrArg List.getLast? hsame
  rwa [List.getLast?_append_of_ne_nil _ hne, List.getLast?_concat] at hlast

/-- Moving through a text is moving through the one that it stands in. -/
theorem move_eq (h : StandsAt cs start w) {offset : Nat} (ho : offset ≤ byteCount w) :
    (Location.move ⟨1, 1⟩ cs start).move w offset = Location.move ⟨1, 1⟩ cs (start + offset) := by
  obtain ⟨front, back, rfl, rfl⟩ := h
  rw [List.append_assoc, Location.move_append_left _ _ _ (Nat.le_refl _), Location.move_append,
    Location.move_append_left _ _ _ ho]

end StandsAt

theorem dropBytes?_eq {cs rest : List Char} {n : Nat} (h : dropBytes? n cs = some rest) :
    ∃ front, cs = front ++ rest ∧ byteCount front = n := by
  induction cs generalizing n with
  | nil =>
    cases n with
    | zero => exact ⟨[], by simpa [dropBytes?] using h, rfl⟩
    | succ n => simp [dropBytes?] at h
  | cons c cs ih =>
    cases n with
    | zero => exact ⟨[], by simpa [dropBytes?] using h, rfl⟩
    | succ n =>
      rw [dropBytes?] at h
      split at h
      next hle =>
        obtain ⟨front, rfl, hfront⟩ := ih h
        exact ⟨c :: front, rfl, by rw [byteCount_cons]; omega⟩
      next => exact absurd h (by simp)

theorem takeBytes?_eq {cs w : List Char} {n : Nat} (h : takeBytes? n cs = some w) :
    ∃ back, cs = w ++ back ∧ byteCount w = n := by
  induction cs generalizing n w with
  | nil =>
    cases n with
    | zero => exact ⟨[], by simp_all [takeBytes?], by simp_all [takeBytes?]⟩
    | succ n => simp [takeBytes?] at h
  | cons c cs ih =>
    cases n with
    | zero =>
      obtain rfl : [] = w := by simpa [takeBytes?] using h
      exact ⟨c :: cs, rfl, rfl⟩
    | succ n =>
      rw [takeBytes?] at h
      split at h
      next hle =>
        obtain ⟨v, hv, rfl⟩ := Option.map_eq_some_iff.mp h
        obtain ⟨back, rfl, hsize⟩ := ih hv
        exact ⟨back, rfl, by rw [byteCount_cons]; omega⟩
      next => exact absurd h (by simp)

/-- A slice stands where it is cut out. -/
theorem slice?_standsAt {cs w : List Char} {start stop : Nat} (h : slice? cs start stop = some w) :
    StandsAt cs start w ∧ start + byteCount w = stop := by
  unfold slice? at h
  split at h
  next hle =>
    obtain ⟨rest, hrest, hw⟩ := Option.bind_eq_some_iff.mp h
    obtain ⟨front, rfl, hfront⟩ := dropBytes?_eq hrest
    obtain ⟨back, rfl, hsize⟩ := takeBytes?_eq hw
    exact ⟨⟨front, back, by simp, hfront⟩, by omega⟩
  next => exact absurd h (by simp)

theorem dropBytes?_append (front rest : List Char) :
    dropBytes? (byteCount front) (front ++ rest) = some rest := by
  induction front with
  | nil => cases rest <;> rfl
  | cons c front ih =>
    obtain ⟨n, hn⟩ := Nat.exists_eq_add_of_lt c.utf8Size_pos
    have hsize : byteCount (c :: front) = n + byteCount front + 1 := by
      rw [byteCount_cons]
      omega
    rw [List.cons_append, hsize, dropBytes?, if_pos (by omega),
      show n + byteCount front + 1 - c.utf8Size = byteCount front by omega, ih]

theorem takeBytes?_append (w back : List Char) : takeBytes? (byteCount w) (w ++ back) = some w := by
  induction w with
  | nil => cases back <;> rfl
  | cons c w ih =>
    obtain ⟨n, hn⟩ := Nat.exists_eq_add_of_lt c.utf8Size_pos
    have hsize : byteCount (c :: w) = n + byteCount w + 1 := by
      rw [byteCount_cons]
      omega
    rw [List.cons_append, hsize, takeBytes?, if_pos (by omega),
      show n + byteCount w + 1 - c.utf8Size = byteCount w by omega, ih]
    rfl

/-- Between two places where characters end there is a slice. -/
theorem exists_slice? {cs : List Char} {start stop : Nat} (hstart : StandsAt cs start [])
    (hstop : StandsAt cs stop []) (hle : start ≤ stop) : ∃ w, slice? cs start stop = some w := by
  obtain ⟨front, back, hcs, hfront⟩ := hstart
  obtain ⟨front', back', hcs', hfront'⟩ := hstop
  rw [List.append_nil] at hcs hcs'
  -- the part in front of the second place is longer than the one in front of the first
  obtain ⟨w, rfl⟩ : ∃ w, front' = front ++ w := by
    rcases List.append_eq_append_iff.mp (hcs.symm.trans hcs') with ⟨w, hw, -⟩ | ⟨w, hw, -⟩
    · exact ⟨w, hw⟩
    · have hnil : w = [] := by
        by_contra hne
        have := byteCount_pos hne
        rw [hw, byteCount_append] at hfront
        omega
      exact ⟨[], by rw [hw, hnil]; simp⟩
  refine ⟨w, ?_⟩
  rw [byteCount_append, hfront] at hfront'
  rw [slice?, if_pos hle, hcs', List.append_assoc, ← hfront, dropBytes?_append, Option.bind_some,
    hfront, show stop - start = byteCount w by omega, takeBytes?_append]

/-- The first character with a property: what stands in front of it does not have it. -/
theorem beforeFirst?_eq {p : Char → Bool} {cs front : List Char}
    (h : beforeFirst? p cs = some front) :
    ∃ c back, cs = front ++ c :: back ∧ p c = true ∧ ∀ d ∈ front, p d = false := by
  induction cs generalizing front with
  | nil => exact absurd h (by simp [beforeFirst?])
  | cons c cs ih =>
    rw [beforeFirst?] at h
    split at h
    next hc =>
      obtain rfl : [] = front := Option.some.inj h
      exact ⟨c, cs, rfl, hc, by simp⟩
    next hc =>
      obtain ⟨front', hfront, rfl⟩ := Option.map_eq_some_iff.mp h
      obtain ⟨d, back, rfl, hd, hall⟩ := ih hfront
      exact ⟨d, back, rfl, hd, List.forall_mem_cons.mpr ⟨by simpa using hc, hall⟩⟩

/-- Where a character with a property stands, there is a first one. -/
theorem beforeFirst?_ne_none {p : Char → Bool} {c : Char} (hc : p c = true) (front back : List Char) :
    beforeFirst? p (front ++ c :: back) ≠ none := by
  induction front with
  | nil => simp [beforeFirst?, hc]
  | cons d front ih =>
    rw [List.cons_append, beforeFirst?]
    split
    · simp
    · simpa using ih

/-- Where two characters stand, there is a last place where they do. -/
theorem beforeLastPair?_ne_none (a b : Char) (front back : List Char) :
    beforeLastPair? a b (front ++ a :: b :: back) ≠ none := by
  have further : ∀ {c : Char} {cs : List Char}, beforeLastPair? a b cs ≠ none →
      beforeLastPair? a b (c :: cs) ≠ none := by
    intro c cs h
    cases cs with
    | nil => exact absurd rfl h
    | cons d cs =>
      rw [beforeLastPair?]
      split
      · simp
      next hnone => exact absurd hnone h
  induction front with
  | nil =>
    rw [List.nil_append, beforeLastPair?]
    split <;> simp
  | cons c front ih => exact further ih

/-- The last place where two characters stand: they do not stand further behind. -/
theorem beforeLastPair?_eq {a b : Char} {cs front : List Char}
    (h : beforeLastPair? a b cs = some front) :
    ∃ back, cs = front ++ a :: b :: back ∧ ∀ x y, b :: back ≠ x ++ a :: b :: y := by
  induction cs generalizing front with
  | nil => exact absurd h (by simp [beforeLastPair?])
  | cons c cs ih =>
    cases cs with
    | nil => exact absurd h (by simp [beforeLastPair?])
    | cons d cs =>
      rw [beforeLastPair?] at h
      split at h
      next front' hfront =>
        obtain rfl : c :: front' = front := Option.some.inj h
        obtain ⟨back, hback, hlast⟩ := ih hfront
        exact ⟨back, by rw [hback]; rfl, hlast⟩
      next hnone =>
        split at h
        next hpair =>
          obtain rfl : [] = front := Option.some.inj h
          obtain ⟨rfl, rfl⟩ : c = a ∧ d = b := by simpa using hpair
          exact ⟨cs, rfl, fun x y hxy => beforeLastPair?_ne_none c d x y (hxy ▸ hnone)⟩
        next => exact absurd h (by simp)

/-! ## Texts in step -/

/-- Two texts are equally long and have their newlines at the same offsets. -/
structure Aligned (v w : List Char) : Prop where
  size : byteCount v = byteCount w
  move : ∀ (l : Location) (offset : Nat), l.move v offset = l.move w offset

namespace Aligned

theorem refl (v : List Char) : Aligned v v := ⟨rfl, fun _ _ => rfl⟩

/-- An offset into a text that is in step with one in the document is an offset into the document. -/
theorem map_move {cs v w : List Char} {start offset : Nat} (h : Aligned v w)
    (hw : StandsAt cs start w) (ho : offset ≤ byteCount v) :
    (Origin.verbatim (Location.move ⟨1, 1⟩ cs start)).map (Location.move ⟨1, 1⟩ v offset) =
      Location.move ⟨1, 1⟩ cs (start + offset) := by
  rw [Origin.map_move, h.move, hw.move_eq (h.size ▸ ho)]

end Aligned

end Text

end BaselineAudit
