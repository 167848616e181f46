import BaselineAudit.Proofs.Text.Bytes
import BaselineAudit.Proofs.Text.Strict

/-!
# Looking up a line

The line of an offset comes from a binary search for the offset among the starts of the lines. The
search answers with a line that starts there, or with the place at which such a line would be put. In
the second case the line in front of this place is meant.

* `LineIndex.Sought`: what a binary search may answer. There is always an answer
  (`LineIndex.exists_sought`).
* `LineIndex.lookup?`: the location that an answer leads to, without truncation and defaults.
* `LineIndex.IsLine`: each answer leads to the last line that starts at or before the offset
  (`LineIndex.isLine_of_hit`, `LineIndex.isLine_of_miss`).
* `LineIndex.lookup_faithful`: so every answer leads to the location that the bytes in front of the
  offset show, and these locations are in the order of their offsets.
-/

namespace BaselineAudit

open Text

/-- The bytes in front of a location end with whole lines and the part of a line that the column
counts. -/
theorem Location.exists_lines_behind (bs : List UInt8) :
    ∃ lines line, bs = lines ++ line ∧ (lines = [] ∨ lines.getLast? = some newline) ∧
      newline ∉ line ∧ behind bs = ⟨1 + bs.count newline, 1 + (bs.length - lines.length)⟩ := by
  have hsplit := List.takeWhile_append_dropWhile (p := fun b => decide (b ≠ newline)) (l := bs.reverse)
  generalize hline : bs.reverse.takeWhile _ = line at hsplit
  generalize hlines : bs.reverse.dropWhile _ = lines at hsplit
  have hbs : bs = lines.reverse ++ line.reverse := by
    rw [← List.reverse_append, hsplit, List.reverse_reverse]
  refine ⟨lines.reverse, line.reverse, hbs, ?_, ?_, ?_⟩
  · cases lines with
    | nil => exact .inl rfl
    | cons b lines =>
      right
      have hhead := List.head?_dropWhile_not (fun b => decide (b ≠ newline)) bs.reverse
      rw [hlines] at hhead
      simpa using hhead
  · intro hmem
    rw [List.mem_reverse, ← hline] at hmem
    have hne := List.all_eq_true.mp List.all_takeWhile newline hmem
    simp at hne
  · have hlength := congrArg List.length hbs
    simp only [List.length_append, List.length_reverse] at hlength
    rw [behind, hline, List.length_reverse, Location.mk.injEq]
    exact ⟨Nat.add_comm _ _, by omega⟩

namespace LineIndex

/-- What a binary search for a number may answer: a place where it stands, or the place in front of
which all smaller numbers stand and no others, if it stands nowhere. -/
inductive Sought (numbers : Array Nat) (n : Nat) : Except Nat Nat → Prop
  | hit {k} : numbers[k]? = some n → Sought numbers n (.ok k)
  | miss {k} : k ≤ numbers.size → n ∉ numbers →
      (∀ j x, numbers[j]? = some x → (x < n ↔ j < k)) → Sought numbers n (.error k)

/-- The location of an offset, given what a search for it among the starts of the lines answered. -/
def lookup? (i : LineIndex) (offset : Nat) (answer : Except Nat Nat) : Option Location := do
  let line ← match answer with
    | .ok k => some k
    | .error k => Nat.psub k 1
  let start ← i.starts[line]?
  let column ← Nat.psub offset start
  pure ⟨line + 1, column + 1⟩

/-- Line `k` is the last one that starts at or before an offset, and it starts at `start`. -/
structure IsLine (i : LineIndex) (offset k start : Nat) : Prop where
  getElem? : i.starts[k]? = some start
  le : start ≤ offset
  lt_next : ∀ next, i.starts[k + 1]? = some next → offset < next

section Lines

variable {text : String} {offset : Nat}

theorem starts_ofText (text : String) :
    (ofText text).starts = (0 :: startsFrom 0 text.toList).toArray := rfl

/-- Lines start one behind the other. -/
theorem starts_lt {j k x y : Nat} (hx : (ofText text).starts[j]? = some x)
    (hy : (ofText text).starts[k]? = some y) (h : j < k) : x < y := by
  have hsorted : (0 :: startsFrom 0 text.toList).Pairwise (· < ·) :=
    .cons (fun _ hmem => lt_of_mem_startsFrom hmem) (startsFrom_sorted 0 _)
  rw [starts_ofText, List.getElem?_toArray] at hx hy
  obtain ⟨hj, rfl⟩ := List.getElem?_eq_some_iff.mp hx
  obtain ⟨hk, rfl⟩ := List.getElem?_eq_some_iff.mp hy
  exact List.pairwise_iff_getElem.mp hsorted j k hj hk h

theorem isLine_of_hit {k : Nat} (h : (ofText text).starts[k]? = some offset) :
    (ofText text).IsLine offset k offset :=
  ⟨h, Nat.le_refl _, fun _ hnext => starts_lt h hnext (Nat.lt_succ_self k)⟩

/-- The first line starts at 0, so an offset at which no line starts has a line in front of it. -/
theorem isLine_of_miss {k : Nat} (hk : k ≤ (ofText text).starts.size)
    (hnone : offset ∉ (ofText text).starts)
    (h : ∀ j x, (ofText text).starts[j]? = some x → (x < offset ↔ j < k)) :
    ∃ line start, k = line + 1 ∧ (ofText text).IsLine offset line start := by
  have hfirst : (ofText text).starts[0]? = some 0 := by simp [starts_ofText]
  have hpos : 0 < offset := by
    refine Nat.pos_of_ne_zero fun hzero => hnone ?_
    rw [hzero]
    exact Array.mem_of_getElem? hfirst
  have hline : 0 < k := (h 0 0 hfirst).mp hpos
  obtain ⟨line, rfl⟩ := Nat.exists_eq_add_one.mpr hline
  have hstart := Array.getElem?_eq_getElem (show line < (ofText text).starts.size by omega)
  refine ⟨line, _, rfl, hstart, Nat.le_of_lt ((h _ _ hstart).mpr (Nat.lt_succ_self line)), ?_⟩
  intro next hnext
  have hle : offset ≤ next := Nat.le_of_not_lt fun hlt => Nat.lt_irrefl _ ((h _ _ hnext).mp hlt)
  exact Nat.lt_of_le_of_ne hle fun heq => hnone (heq ▸ Array.mem_of_getElem? hnext)

/-- The line of an offset tells its location. -/
theorem IsLine.locate_eq {k start : Nat} (h : (ofText text).IsLine offset k start) :
    (ofText text).locate offset = ⟨k + 1, offset - start + 1⟩ := by
  obtain ⟨hget, hle, hlt⟩ := h
  rw [starts_ofText, List.getElem?_toArray] at hget
  have hmove := move_eq_of_line 1 (Nat.le_refl 0) hget (Nat.zero_add offset ▸ hle) fun y hy => by
    rw [Nat.zero_add]
    exact hlt y (by rw [starts_ofText, List.getElem?_toArray]; exact hy)
  rw [LineIndex.locate_eq, Nat.add_comm k 1]
  simpa using hmove

/-- There is a line for every offset, and the halving of the index ends there. -/
theorem exists_isLine (text : String) (offset : Nat) :
    ∃ k start, (ofText text).IsLine offset k start := by
  obtain ⟨hr, hle, hlt⟩ := (ofText text).search_spec offset (Nat.le_add_left _ 0)
    (by simp [starts_ofText]) (by simp [starts_ofText]) (.inl rfl)
    (Nat.le_refl (ofText text).starts.size)
  generalize (ofText text).search offset (ofText text).starts.size 0 (ofText text).starts.size = r
    at hr hle hlt
  refine ⟨r, (ofText text).starts.getD r 0, by simp [Array.getD, hr], hle, fun next hnext => ?_⟩
  have hsize := (Array.getElem?_eq_some_iff.mp hnext).1
  have hlater := hlt.resolve_left (by omega)
  rwa [Array.getD_eq_getD_getElem?, hnext] at hlater

/-- The line of an offset tells which lines start in front of it. -/
theorem IsLine.start_lt_iff {k start j x : Nat} (h : (ofText text).IsLine offset k start)
    (hne : start ≠ offset) (hx : (ofText text).starts[j]? = some x) :
    (x < offset ↔ j < k + 1) ∧ x ≠ offset := by
  obtain ⟨hget, hle, hlt⟩ := h
  by_cases hj : j < k + 1
  · have hxs : x ≤ start := by
      rcases Nat.lt_or_eq_of_le (Nat.le_of_lt_succ hj) with hjk | rfl
      · exact Nat.le_of_lt (starts_lt hx hget hjk)
      · exact Nat.le_of_eq (Option.some.inj (hx.symm.trans hget))
    omega
  · have hsize := (Array.getElem?_eq_some_iff.mp hx).1
    have hnext := Array.getElem?_eq_getElem (show k + 1 < (ofText text).starts.size by omega)
    have hoffset := hlt _ hnext
    have hnx : (ofText text).starts[k + 1] ≤ x := by
      rcases Nat.lt_or_eq_of_le (Nat.le_of_not_lt hj) with hjk | rfl
      · exact Nat.le_of_lt (starts_lt hnext hx hjk)
      · exact Nat.le_of_eq (Option.some.inj (hnext.symm.trans hx))
    omega

/-- A binary search for an offset has an answer. -/
theorem exists_sought (text : String) (offset : Nat) :
    ∃ answer, Sought (ofText text).starts offset answer := by
  obtain ⟨k, start, hline⟩ := exists_isLine text offset
  by_cases hne : start = offset
  · exact ⟨.ok k, .hit (hne ▸ hline.getElem?)⟩
  · refine ⟨.error (k + 1), .miss ?_ (fun hmem => ?_) fun j x hx => (hline.start_lt_iff hne hx).1⟩
    · exact (Array.getElem?_eq_some_iff.mp hline.getElem?).1
    · obtain ⟨j, hj⟩ := Array.mem_iff_getElem?.mp hmem
      exact (hline.start_lt_iff hne hj).2 rfl

/-- Every answer leads to the location, and no step on the way fails. -/
theorem lookup?_eq {answer : Except Nat Nat} (h : Sought (ofText text).starts offset answer) :
    (ofText text).lookup? offset answer = some ((ofText text).locate offset) := by
  have of_isLine : ∀ {k start : Nat}, (ofText text).IsLine offset k start →
      ((ofText text).starts[k]?.bind fun start => (Nat.psub offset start).bind fun column =>
        some (⟨k + 1, column + 1⟩ : Location)) = some ((ofText text).locate offset) := by
    intro k start hline
    rw [hline.locate_eq, hline.getElem?, Option.bind_some, Nat.psub_eq_sub hline.le, Option.bind_some]
  cases h with
  | hit hk => exact of_isLine (isLine_of_hit hk)
  | miss hk hnone hiff =>
    obtain ⟨line, start, rfl, hline⟩ := isLine_of_miss hk hnone hiff
    exact of_isLine hline

end Lines

/-- For every text and every offset up to its end, a binary search for the offset has an answer, and
every answer leads to its location without a step out of range or below zero. The line counts the
newlines in front of the offset, and the column the bytes behind the last of them. Locations are in
the order of their offsets, so no two offsets have the same. -/
theorem lookup_faithful (text : String) :
    (∀ o ≤ text.utf8ByteSize,
      (∃ answer, Sought (ofText text).starts o answer) ∧
      (∀ answer, Sought (ofText text).starts o answer →
        (ofText text).lookup? o answer = some ((ofText text).locate o)) ∧
      ∃ lines line, (bytes text.toList).take o = lines ++ line ∧
        (lines = [] ∨ lines.getLast? = some newline) ∧ newline ∉ line ∧
        (ofText text).locate o =
          ⟨1 + ((bytes text.toList).take o).count newline, 1 + (o - lines.length)⟩) ∧
    (∀ o o', o < o' → o' ≤ text.utf8ByteSize →
      ((ofText text).locate o).Before ((ofText text).locate o')) ∧
    ∀ o o', o ≤ text.utf8ByteSize → o' ≤ text.utf8ByteSize →
      (ofText text).locate o = (ofText text).locate o' → o = o' := by
  refine ⟨fun o ho => ⟨exists_sought text o, fun _ h => lookup?_eq h, ?_⟩, fun o o' h _ => ?_,
    fun o o' _ _ h => ?_⟩
  · have hlength : ((bytes text.toList).take o).length = o := by
      rw [List.length_take, length_bytes, byteCount_toList, Nat.min_eq_left ho]
    obtain ⟨lines, line, hsplit, hend, hline, hbehind⟩ :=
      Location.exists_lines_behind ((bytes text.toList).take o)
    rw [hlength] at hbehind
    exact ⟨lines, line, hsplit, hend, hline, (locate_eq_behind text ho).trans hbehind⟩
  · rw [LineIndex.locate_eq, LineIndex.locate_eq]
    exact Location.move_before _ _ h
  · rw [LineIndex.locate_eq, LineIndex.locate_eq] at h
    exact Location.move_injective _ _ h

/-- In a text whose last line is empty, the end is a place where a line starts, and the newline in front
of it is none. -/
theorem lookup_faithful_last_line :
    Sought (ofText "a\n").starts 2 (.ok 1) ∧ Sought (ofText "a\n").starts 1 (.error 1) ∧
      (ofText "a\n").lookup? 2 (.ok 1) = some ⟨2, 1⟩ ∧
      (ofText "a\n").lookup? 1 (.error 1) = some ⟨1, 2⟩ := by
  have hend : Sought (ofText "a\n").starts 2 (.ok 1) := .hit (by decide)
  have hnewline : Sought (ofText "a\n").starts 1 (.error 1) := by
    rw [show (ofText "a\n").starts = #[0, 2] from rfl]
    refine .miss (by decide) (by simp) fun j x hx => ?_
    rcases j with - | - | j <;> simp at hx <;> omega
  obtain ⟨hlookup, -, -⟩ := lookup_faithful "a\n"
  exact ⟨hend, hnewline, (hlookup 2 (by decide)).2.1 _ hend, (hlookup 1 (by decide)).2.1 _ hnewline⟩

end LineIndex

end BaselineAudit
