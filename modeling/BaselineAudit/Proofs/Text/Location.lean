import BaselineAudit.Text.Location
import Mathlib.Algebra.GroupWithZero.Nat
import Mathlib.Data.List.Basic

/-!
# Locations in a text

`Location.move` walks through a text character by character, which says what a location is without
an index of lines.

* `LineIndex.locate_eq`: the index finds the same locations.
* `Location.move_append`, `Location.move_append_left`: a text behind another, and one in front.
* `Location.move_before`: locations are in the order of their offsets.
* `Origin.map_move`: the location in a document of a location in a piece of it.
-/

namespace BaselineAudit

/-- The number of bytes of some characters. -/
def byteCount (cs : List Char) : Nat := (cs.map Char.utf8Size).sum

@[simp] theorem byteCount_nil : byteCount [] = 0 := rfl

@[simp] theorem byteCount_cons (c : Char) (cs : List Char) :
    byteCount (c :: cs) = c.utf8Size + byteCount cs := rfl

@[simp] theorem byteCount_append (cs ds : List Char) :
    byteCount (cs ++ ds) = byteCount cs + byteCount ds := by
  simp [byteCount]

theorem byteCount_pos {cs : List Char} (h : cs ≠ []) : 0 < byteCount cs := by
  cases cs with
  | nil => exact absurd rfl h
  | cons c cs =>
    have := c.utf8Size_pos
    rw [byteCount_cons]
    omega

/-- Two starts of one text that are equally long are the same. -/
theorem append_inj_of_byteCount {a b c d : List Char} (h : a ++ b = c ++ d)
    (hl : byteCount a = byteCount c) : a = c ∧ b = d := by
  induction a generalizing c with
  | nil =>
    cases c with
    | nil => exact ⟨rfl, h⟩
    | cons x c =>
      have := byteCount_pos (List.cons_ne_nil x c)
      rw [← hl, byteCount_nil] at this
      omega
  | cons x a ih =>
    cases c with
    | nil =>
      have := byteCount_pos (List.cons_ne_nil x a)
      rw [hl, byteCount_nil] at this
      omega
    | cons y c =>
      rw [List.cons_append, List.cons_append] at h
      obtain ⟨rfl, hr⟩ := List.cons.inj h
      obtain ⟨rfl, rfl⟩ := ih hr (by simpa using hl)
      exact ⟨rfl, rfl⟩

/-! ## Moving through a text -/

namespace Location

/-- The location behind a character. -/
def step (l : Location) (c : Char) : Location :=
  if c = '\n' then ⟨l.line + 1, 1⟩ else ⟨l.line, l.column + c.utf8Size⟩

/-- The location `offset` bytes into a text that starts at `l`. -/
def move (l : Location) : List Char → (offset : Nat) → Location
  | [], offset => ⟨l.line, l.column + offset⟩
  | c :: cs, offset =>
    if offset < c.utf8Size then ⟨l.line, l.column + offset⟩
    else move (l.step c) cs (offset - c.utf8Size)

@[simp] theorem move_zero (l : Location) (cs : List Char) : l.move cs 0 = l := by
  cases cs with
  | nil => rfl
  | cons c cs => rw [move, if_pos c.utf8Size_pos]; rfl

theorem move_cons (l : Location) (c : Char) (cs : List Char) (offset : Nat) :
    l.move (c :: cs) (c.utf8Size + offset) = (l.step c).move cs offset := by
  rw [move, if_neg (by omega), Nat.add_sub_cancel_left]

theorem move_append (l : Location) (pre cs : List Char) (offset : Nat) :
    l.move (pre ++ cs) (byteCount pre + offset) = (l.move pre (byteCount pre)).move cs offset := by
  induction pre generalizing l with
  | nil => simp
  | cons c pre ih =>
    rw [List.cons_append, byteCount_cons, Nat.add_assoc, move_cons, ih, move_cons]

theorem move_append_left (l : Location) (cs post : List Char) {offset : Nat}
    (h : offset ≤ byteCount cs) : l.move (cs ++ post) offset = l.move cs offset := by
  induction cs generalizing l offset with
  | nil =>
    obtain rfl : offset = 0 := by simpa using h
    simp
  | cons c cs ih =>
    rw [List.cons_append, move, move]
    split
    · rfl
    · rw [byteCount_cons] at h
      exact ih _ (by omega)

/-- One never moves backwards. -/
theorem le_move (l : Location) (cs : List Char) (offset : Nat) :
    l.line ≤ (l.move cs offset).line ∧
      ((l.move cs offset).line = l.line → l.column ≤ (l.move cs offset).column) := by
  induction cs generalizing l offset with
  | nil => exact ⟨Nat.le_refl _, fun _ => Nat.le_add_right _ _⟩
  | cons c cs ih =>
    rw [move]
    split
    · exact ⟨Nat.le_refl _, fun _ => Nat.le_add_right _ _⟩
    · obtain ⟨h₁, h₂⟩ := ih (l.step c) (offset - c.utf8Size)
      unfold step at h₁ h₂ ⊢
      split at h₁
      · rename_i hc
        rw [if_pos hc] at h₂ ⊢
        simp only at h₁ h₂
        exact ⟨by omega, by omega⟩
      · rename_i hc
        rw [if_neg hc] at h₂ ⊢
        simp only at h₁ h₂
        refine ⟨h₁, fun h => ?_⟩
        have := h₂ h
        omega

/-- A location comes before another: it is on an earlier line, or further left on the same one. -/
def Before (a b : Location) : Prop := a.line < b.line ∨ a.line = b.line ∧ a.column < b.column

instance (a b : Location) : Decidable (a.Before b) :=
  inferInstanceAs (Decidable (_ ∨ _))

theorem Before.ne {a b : Location} (h : a.Before b) : a ≠ b := by
  rintro rfl
  rcases h with h | ⟨-, h⟩ <;> exact absurd h (Nat.lt_irrefl _)

/-- A location inside a character comes before those behind it. -/
theorem before_move_step (l : Location) (c : Char) (cs : List Char) {o : Nat} (o' : Nat)
    (h : o < c.utf8Size) : Before ⟨l.line, l.column + o⟩ ((l.step c).move cs o') := by
  obtain ⟨hline, hcolumn⟩ := (l.step c).le_move cs o'
  generalize (l.step c).move cs o' = m at hline hcolumn
  unfold step at hline hcolumn
  unfold Before
  split at hline
  next =>
    simp only at hline
    exact .inl hline
  next hc =>
    rw [if_neg hc] at hcolumn
    simp only at hline hcolumn ⊢
    omega

/-- Locations are in the order of their offsets. -/
theorem move_before (l : Location) (cs : List Char) {o o' : Nat} (h : o < o') :
    (l.move cs o).Before (l.move cs o') := by
  induction cs generalizing l o o' with
  | nil => exact .inr ⟨rfl, Nat.add_lt_add_left h _⟩
  | cons c cs ih =>
    rw [move, move]
    by_cases ho : o < c.utf8Size
    · rw [if_pos ho]
      split
      · exact .inr ⟨rfl, Nat.add_lt_add_left h _⟩
      · exact l.before_move_step c cs _ ho
    · rw [if_neg ho, if_neg (by omega)]
      exact ih _ (by omega)

/-- Different offsets have different locations. -/
theorem move_injective (l : Location) (cs : List Char) {o o' : Nat}
    (h : l.move cs o = l.move cs o') : o = o' := by
  rcases Nat.lt_trichotomy o o' with ho | ho | ho
  · exact absurd h (l.move_before cs ho).ne
  · exact ho
  · exact absurd h.symm (l.move_before cs ho).ne

end Location

/-- The location in a document of a location in a piece of it. -/
theorem Origin.map_move (start : Location) (cs : List Char) (offset : Nat) :
    (Origin.verbatim start).map (Location.move ⟨1, 1⟩ cs offset) = start.move cs offset := by
  have map_eq : ∀ l : Location, (Origin.verbatim start).map l =
      if l.line = 1 then ⟨start.line, start.column + l.column - 1⟩
      else ⟨start.line + l.line - 1, l.column⟩ := fun _ => rfl
  -- what moves with the text is that lines and columns count from 1
  suffices h : ∀ l : Location, 1 ≤ l.line → 1 ≤ l.column →
      (Origin.verbatim start).map (l.move cs offset) =
        ((Origin.verbatim start).map l).move cs offset by
    rw [h ⟨1, 1⟩ (Nat.le_refl 1) (Nat.le_refl 1)]
    rfl
  intro l hl hc
  induction cs generalizing l offset with
  | nil =>
    simp only [Location.move, map_eq]
    split
    · simp only [Location.mk.injEq, true_and]
      omega
    · rfl
  | cons c cs ih =>
    have hs : (Origin.verbatim start).map (l.step c) = ((Origin.verbatim start).map l).step c := by
      simp only [Location.step, map_eq]
      by_cases hn : c = '\n'
      · simp only [if_pos hn]
        rw [if_neg (by omega)]
        split <;> simp only [Location.mk.injEq, and_true] <;> omega
      · simp only [if_neg hn]
        split
        · simp only [Location.mk.injEq, true_and]
          omega
        · rfl
    rw [Location.move, Location.move]
    split
    · simp only [map_eq]
      split
      · simp only [Location.mk.injEq, true_and]
        omega
      · rfl
    · rw [ih _ _ (by unfold Location.step; split <;> simp only <;> omega)
        (by unfold Location.step; split <;> simp only <;> omega), hs]

/-! ## The index of lines -/

namespace LineIndex

/-- The search ends at a line that starts at or before the offset, and is the last one or has one
behind it that starts later. -/
theorem search_spec (i : LineIndex) (offset : Nat) {fuel lo hi : Nat} (hf : hi ≤ lo + fuel)
    (hlt : lo < hi) (hlo : i.starts.getD lo 0 ≤ offset)
    (hhi : hi = i.starts.size ∨ offset < i.starts.getD hi 0) (hs : hi ≤ i.starts.size) :
    let r := i.search offset fuel lo hi
    r < i.starts.size ∧ i.starts.getD r 0 ≤ offset ∧
      (r + 1 = i.starts.size ∨ offset < i.starts.getD (r + 1) 0) := by
  induction fuel generalizing lo hi with
  | zero => omega
  | succ fuel ih =>
    rw [search]
    split
    · obtain rfl : hi = lo + 1 := by omega
      exact ⟨by omega, hlo, hhi⟩
    · simp only
      split
      · rename_i hm
        exact ih (by omega) (by omega) hm hhi hs
      · rename_i hm
        exact ih (by omega) (by omega) hlo (.inr (by omega)) (by omega)

theorem lt_of_mem_startsFrom {b x : Nat} {cs : List Char} (h : x ∈ startsFrom b cs) : b < x := by
  induction cs generalizing b with
  | nil => exact absurd h List.not_mem_nil
  | cons c cs ih =>
    have hc := c.utf8Size_pos
    simp only [startsFrom] at h
    split at h
    · rcases List.mem_cons.mp h with rfl | h
      · omega
      · have := ih h
        omega
    · have := ih h
      omega

/-- The line of an offset into a text at `b`, whose first line starts at `b₀`, tells the location. -/
theorem move_eq_of_line (line : Nat) {cs : List Char} {b b₀ o k x : Nat} (hb : b₀ ≤ b)
    (hx : (b₀ :: startsFrom b cs)[k]? = some x) (hle : x ≤ b + o)
    (hlt : ∀ y, (b₀ :: startsFrom b cs)[k + 1]? = some y → b + o < y) :
    Location.move ⟨line, b - b₀ + 1⟩ cs o = ⟨line + k, b + o - x + 1⟩ := by
  induction cs generalizing b b₀ o k line with
  | nil =>
    cases k with
    | zero =>
      obtain rfl : b₀ = x := by simpa using hx
      simp only [Location.move, Location.mk.injEq]
      omega
    | succ k => simp [startsFrom] at hx
  | cons c cs ih =>
    have hc := c.utf8Size_pos
    by_cases ho : o < c.utf8Size
    · -- the offset is in front of all lines behind the first one
      have hfar : ∀ y ∈ startsFrom b (c :: cs), b + c.utf8Size ≤ y := by
        intro y hy
        simp only [startsFrom] at hy
        split at hy
        · rcases List.mem_cons.mp hy with rfl | hy
          · exact Nat.le_refl _
          · exact Nat.le_of_lt (lt_of_mem_startsFrom hy)
        · exact Nat.le_of_lt (lt_of_mem_startsFrom hy)
      cases k with
      | zero =>
        obtain rfl : b₀ = x := by simpa using hx
        rw [Location.move, if_pos ho]
        simp only [Location.mk.injEq]
        omega
      | succ k =>
        have := hfar x (List.mem_of_getElem? hx)
        omega
    · have hle' : x ≤ b + c.utf8Size + (o - c.utf8Size) := by omega
      have hbo : b + c.utf8Size + (o - c.utf8Size) = b + o := by omega
      rw [Location.move, if_neg ho, Location.step]
      by_cases hn : c = '\n'
      · have hsize : c.utf8Size = 1 := by rw [hn]; rfl
        simp only [startsFrom, if_pos hn] at hx hlt
        cases k with
        | zero =>
          have := hlt (b + c.utf8Size) (by simp)
          omega
        | succ k =>
          have h := ih (line + 1) (Nat.le_refl (b + c.utf8Size)) hx hle' fun y hy => by
            rw [hbo]
            exact hlt y hy
          rw [Nat.sub_self] at h
          rw [if_pos hn, ← hbo, Nat.add_comm k 1, ← Nat.add_assoc]
          exact h
      · simp only [startsFrom, if_neg hn] at hx hlt
        have h := ih line (Nat.le_add_right_of_le hb) hx hle' fun y hy => by
          rw [hbo]
          exact hlt y hy
        rw [if_neg hn, ← hbo, ← h]
        simp only
        rw [show b - b₀ + 1 + c.utf8Size = b + c.utf8Size - b₀ + 1 by omega]

/-- The index finds the location that one comes to character by character. -/
theorem locate_eq (s : String) (offset : Nat) :
    (ofText s).locate offset = Location.move ⟨1, 1⟩ s.toList offset := by
  have hs : (ofText s).starts = (0 :: startsFrom 0 s.toList).toArray := rfl
  have hget : ∀ k, (ofText s).starts.getD k 0 = ((0 :: startsFrom 0 s.toList)[k]?).getD 0 := by
    intro k
    rw [hs]
    simp
  have hsize : (ofText s).starts.size = (0 :: startsFrom 0 s.toList).length := by rw [hs]; simp
  obtain ⟨hr, hle, hlt⟩ := (ofText s).search_spec offset (Nat.le_add_left _ 0)
    (by rw [hsize]; exact Nat.succ_pos _) (by rw [hget]; exact Nat.zero_le offset) (.inl rfl)
    (Nat.le_refl (ofText s).starts.size)
  unfold locate
  simp only
  generalize (ofText s).search offset (ofText s).starts.size 0 (ofText s).starts.size = r at hr hle hlt
  rw [hsize] at hr hlt
  have hx := List.getElem?_eq_getElem hr
  rw [hget, hx, Option.getD_some] at hle
  have h := move_eq_of_line 1 (Nat.le_refl 0) hx (Nat.le_trans hle (Nat.le_add_left offset 0))
    fun y hy => by
      rcases hlt with hlt | hlt
      · rw [hlt, List.getElem?_eq_none (Nat.le_refl _)] at hy
        exact absurd hy (by simp)
      · rw [hget, hy, Option.getD_some] at hlt
        omega
  rw [hget, hx, Option.getD_some, Nat.add_comm r 1]
  simpa using h.symm

end LineIndex

end BaselineAudit
