import BaselineAudit.Component.Template
import BaselineAudit.Css.Declarations
import BaselineAudit.Proofs.Audit.Keys
import BaselineAudit.Proofs.Text.Location
import Mathlib.Data.Nat.PSub

/-!
# Locations without truncation

Locations are computed with subtractions that stop at zero and with look-ups that have a default. Here
the same is done with operations that have no result below zero or out of range. They always have one:

* `LineIndex.locate?_eq`: the line of an offset, for every text and offset.
* `Origin.map?_eq`: the place in the document of a location that counts from 1.
* `Css.Snippet.locate?_eq`: the place in the document of an offset into a snippet.
* `Component.templateStyles?_eq`: the end of a template.
-/

namespace BaselineAudit

/-! ## Lines -/

namespace LineIndex

/-- The location of an offset: its line is the last one that starts at or before it. -/
def locate? (i : LineIndex) (offset : Nat) : Option Location := do
  let line ← Nat.psub (i.starts.countP (· ≤ offset)) 1
  let start ← i.starts[line]?
  let column ← Nat.psub offset start
  pure ⟨line + 1, column + 1⟩

theorem startsFrom_sorted (b : Nat) (cs : List Char) : (startsFrom b cs).Pairwise (· < ·) := by
  induction cs generalizing b with
  | nil => exact .nil
  | cons c cs ih =>
    simp only [startsFrom]
    split
    · exact .cons (fun x hx => lt_of_mem_startsFrom hx) (ih _)
    · exact ih _

/-- In a sorted list, the place of the last number up to a bound tells how many there are. -/
theorem countP_le_of_sorted {l : List Nat} (hl : l.Pairwise (· < ·)) {o r x : Nat}
    (hx : l[r]? = some x) (hle : x ≤ o) (hlt : ∀ y, l[r + 1]? = some y → o < y) :
    l.countP (· ≤ o) = r + 1 := by
  induction l generalizing r with
  | nil => exact absurd hx (by simp)
  | cons a l ih =>
    obtain ⟨ha, hl⟩ := List.pairwise_cons.mp hl
    cases r with
    | zero =>
      obtain rfl : a = x := by simpa using hx
      have hrest : l.countP (· ≤ o) = 0 := by
        refine List.countP_eq_zero.mpr fun z hz => ?_
        obtain ⟨i, hi, rfl⟩ := List.getElem_of_mem hz
        have hfirst : o < l[0] := hlt _ (by simp)
        have hmono : l[0] ≤ l[i] := by
          rcases Nat.eq_zero_or_pos i with rfl | hpos
          · exact Nat.le_refl _
          · exact Nat.le_of_lt (List.pairwise_iff_getElem.mp hl 0 i (by omega) hi hpos)
        simp only [decide_eq_true_eq]
        omega
      rw [List.countP_cons, hrest]
      simp [hle]
    | succ r =>
      have hmem : x ∈ l := List.mem_of_getElem? (by simpa using hx)
      have hax := ha x hmem
      rw [List.countP_cons, ih hl (by simpa using hx) (by simpa using hlt)]
      have hao : a ≤ o := by omega
      simp [hao]

/-- The line of an offset is found, and it starts at or before the offset. -/
theorem locate?_eq (text : String) (offset : Nat) :
    (ofText text).locate? offset = some ((ofText text).locate offset) := by
  have hs : (ofText text).starts = (0 :: startsFrom 0 text.toList).toArray := rfl
  have hsorted : (0 :: startsFrom 0 text.toList).Pairwise (· < ·) :=
    .cons (fun x hx => lt_of_mem_startsFrom hx) (startsFrom_sorted 0 _)
  obtain ⟨hr, hle, hlt⟩ := (ofText text).search_spec offset (Nat.le_add_left _ 0)
    (by simp [hs]) (by simp [hs]) (.inl rfl) (Nat.le_refl (ofText text).starts.size)
  unfold locate? locate
  simp only
  generalize (ofText text).search offset (ofText text).starts.size 0 (ofText text).starts.size = r
    at hr hle hlt
  have hx : (ofText text).starts[r]? = some ((ofText text).starts.getD r 0) := by
    simp [Array.getD, hr]
  have hcount : (ofText text).starts.countP (· ≤ offset) = r + 1 := by
    rw [hs, List.countP_toArray]
    refine countP_le_of_sorted hsorted (by simpa [hs] using hx) hle fun y hy => ?_
    rcases hlt with hend | hlt
    · rw [hs, List.size_toArray] at hend
      rw [hend, List.getElem?_eq_none (Nat.le_refl _)] at hy
      exact absurd hy (by simp)
    · have hget : (ofText text).starts.getD (r + 1) 0 = y := by
        rw [hs, Array.getD_eq_getD_getElem?, List.getElem?_toArray, hy]
        rfl
      omega
  rw [hcount, Nat.psub_eq_sub (Nat.le_add_left 1 r)]
  simp only [Nat.add_sub_cancel, Option.bind_eq_bind, Option.bind_some, hx, Nat.psub_eq_sub hle,
    Option.pure_def]

end LineIndex

/-! ## Places in a document -/

/-- The location in the document of a location in the snippet. -/
def Origin.map? : Origin → Location → Option Location
  | whole, l => some l
  | verbatim start, l =>
    if l.line = 1 then (Nat.psub (start.column + l.column) 1).map (⟨start.line, ·⟩)
    else (Nat.psub (start.line + l.line) 1).map (⟨·, l.column⟩)
  | lines anchors, l => (Nat.psub l.line 1).map fun k => (anchors[k]?).getD l

theorem Origin.map?_eq (o : Origin) {l : Location} (hl : l.Counted) : o.map? l = some (o.map l) := by
  obtain ⟨hline, hcolumn⟩ := hl
  cases o with
  | whole => rfl
  | verbatim start =>
    simp only [Origin.map?, Origin.map]
    split
    · rw [Nat.psub_eq_sub (by omega), Option.map_some]
    · rw [Nat.psub_eq_sub (by omega), Option.map_some]
  | lines anchors => rw [Origin.map?, Nat.psub_eq_sub hline]; rfl

/-- The location in the document of an offset into the source of a snippet. In front of its text, the
first line counts as its start. -/
def Css.Snippet.locate? (s : Snippet) (offset : Nat) : Option Location := do
  let l ← (LineIndex.ofText s.source).locate? offset
  let column ← Nat.psub l.column 1
  let shift := if l.line = 1 then s.form.opening.utf8ByteSize else 0
  s.origin.map? ⟨l.line, column - shift + 1⟩

theorem Css.Snippet.locate?_eq (s : Snippet) (offset : Nat) :
    s.locate? offset = some (s.locate (.ofText s.source) offset) := by
  have hcounted := (LineIndex.ofText s.source).locate_counted offset
  unfold locate? locate
  rw [LineIndex.locate?_eq]
  generalize (LineIndex.ofText s.source).locate offset = l at hcounted
  obtain ⟨hline, hcolumn⟩ := hcounted
  simp only [Option.bind_eq_bind, Option.bind_some, Nat.psub_eq_sub hcolumn]
  have hcolumns : (l.column - 1 - if l.line = 1 then s.form.opening.utf8ByteSize else 0) + 1 =
      if l.line = 1 then l.column - 1 - s.form.opening.utf8ByteSize + 1 else l.column := by
    split
    · rfl
    · omega
  rw [hcolumns, Origin.map?_eq]
  exact ⟨hline, by simp only; split <;> omega⟩

/-! ## Templates -/

namespace Component

open Script

/-- In front of the first byte there is nothing to replace. -/
theorem replaced_zero (source : List Char) (start : Nat) (es : List Span) :
    replaced source 0 (start + 1) es = none := by
  cases es with
  | nil => rfl
  | cons e es =>
    have hback : (Text.slice? source e.stop 0).bind (Text.beforeFirst? (· = '\x7d')) = none := by
      unfold Text.slice?
      split
      next h =>
        simp [Nat.le_zero.mp h, Text.dropBytes?, Text.takeBytes?, Text.beforeFirst?]
      next => rfl
    rw [replaced]
    simp only [Option.bind_eq_bind, ← Option.bind_assoc, hback]
    simp

/-- The end of a template is in front of its last character. -/
theorem templateStyles?_eq (source : List Char) (t : Tree) :
    templateStyles? source t = (Nat.psub t.span.stop 1).bind fun stop =>
      (replaced source stop (t.span.start + 1) (t.children.map Tree.span)).map String.ofList := by
  by_cases h : 1 ≤ t.span.stop
  · rw [Nat.psub_eq_sub h]
    rfl
  · rw [Nat.psub_eq_none.mpr (by omega), templateStyles?, Nat.sub_eq_zero_of_le (by omega),
      replaced_zero]
    rfl

end Component

end BaselineAudit
