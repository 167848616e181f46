import BaselineAudit.Proofs.Script.Lexer
import BaselineAudit.Script.Tree

/-!
# How templates are laid out

A template is written as pieces of text with expressions between them. Each expression stands behind `${`
and in front of `}`, and only blanks and comments stand between it and these.

* `Interpolates`: one expression of a template, with the range from its opening to its closing brace.
* `Laid`: a whole template behind its first quote, up to its last one.
-/

namespace BaselineAudit.Script

open Lexer Text

/-- An expression `e` of a template behind a piece that starts at `start`. Its range is what stands from
the `${` behind the piece up to the brace that is the next thing behind the expression. -/
structure Interpolates (cs : List Char) (start : Nat) (piece : Piece) (e range : Span) : Prop where
  range_start : range.start = start + byteCount piece.raw.toList
  opens : StandsAt cs start (piece.raw.toList ++ ['$', '\x7b'])
  front : Padded cs (range.start + 2) e.start
  le : e.start ≤ e.stop
  back : Padded cs e.stop (range.stop - 1)
  closes : StandsAt cs (range.stop - 1) ['\x7d']

/-- The pieces of a template from `start` on and the ranges of its expressions between them, up to the
quote behind the last piece. -/
inductive Laid (cs : List Char) :
    (start : Nat) → List Piece → (es ranges : List Span) → (stop : Nat) → Prop
  | last {start : Nat} {piece : Piece} (h : StandsAt cs start (piece.raw.toList ++ ['\x60'])) :
      Laid cs start [piece] [] [] (start + byteCount piece.raw.toList + 1)
  | cons {start stop : Nat} {piece : Piece} {pieces : List Piece} {e range : Span}
      {es ranges : List Span} (head : Interpolates cs start piece e range)
      (tail : Laid cs range.stop pieces es ranges stop) :
      Laid cs start (piece :: pieces) (e :: es) (range :: ranges) stop

namespace Lexer.Padded

variable {cs : List Char} {start stop : Nat}

theorem le (h : Padded cs start stop) : start ≤ stop := by
  obtain ⟨w, -, rfl, -⟩ := h
  exact Nat.le_add_right _ _

/-- A character ends in front of blanks and comments. -/
theorem cut_start (h : Padded cs start stop) : StandsAt cs start [] := by
  obtain ⟨w, hw, -, -⟩ := h
  exact StandsAt.left (v := []) hw

/-- Another one ends with them. -/
theorem cut_stop (h : Padded cs start stop) : StandsAt cs stop [] := by
  obtain ⟨w, hw, rfl, -⟩ := h
  exact StandsAt.right (w := []) (by simpa using hw)

end Lexer.Padded

namespace Interpolates

variable {cs : List Char} {start : Nat} {piece : Piece} {e range : Span}

theorem start_le (h : Interpolates cs start piece e range) : start ≤ range.start :=
  h.range_start ▸ Nat.le_add_right _ _

theorem opening (h : Interpolates cs start piece e range) : StandsAt cs range.start ['$', '\x7b'] :=
  h.range_start ▸ h.opens.right

theorem front_le (h : Interpolates cs start piece e range) : range.start + 2 ≤ e.start := h.front.le

theorem back_le (h : Interpolates cs start piece e range) : e.stop + 1 ≤ range.stop := by
  have := h.back.le
  have := h.front.le
  have := h.le
  omega

theorem start_lt (h : Interpolates cs start piece e range) : start < range.stop := by
  have := h.start_le
  have := h.front_le
  have := h.le
  have := h.back_le
  omega

end Interpolates

namespace Laid

variable {cs : List Char} {start stop : Nat} {pieces : List Piece} {es ranges : List Span}

theorem lt (h : Laid cs start pieces es ranges stop) : start < stop := by
  induction h with
  | last => omega
  | cons head _ ih => exact Nat.lt_trans head.start_lt ih

/-- The ranges lie behind the start. -/
theorem start_le (h : Laid cs start pieces es ranges stop) : ∀ range ∈ ranges, start ≤ range.start := by
  induction h with
  | last => simp
  | cons head _ ih =>
    intro range hrange
    rcases List.mem_cons.mp hrange with rfl | hrange
    · exact head.start_le
    · exact Nat.le_trans (Nat.le_of_lt head.start_lt) (ih range hrange)

theorem cut (h : Laid cs start pieces es ranges stop) : StandsAt cs start [] := by
  cases h with
  | last h => exact StandsAt.left (v := []) h
  | cons head => exact StandsAt.left (v := []) head.opens

/-- A template ends with its quote. -/
theorem closes (h : Laid cs start pieces es ranges stop) : StandsAt cs (stop - 1) ['\x60'] := by
  induction h with
  | last h => exact h.right
  | cons _ _ ih => exact ih

end Laid

end BaselineAudit.Script
