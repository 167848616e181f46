import BaselineAudit.Proofs.Report.Collector
import BaselineAudit.Terminal.Paint
import Mathlib.Data.List.TakeDrop

/-!
# Text without its colours

A colour sequence is an escape character and a bracket, numbers with semicolons between them, and the
letter `m`. `Terminal.uncoloured` takes all of them out of a text.

* `Terminal.Plain`: a text without escape characters, which loses nothing.
* `Terminal.Shows`: a text that becomes another one without its colours, whatever stands behind it.
  Texts that are put together show what their parts show (`Terminal.Shows.append`).
* `Terminal.shows_paint`: painted text shows what the plain painter writes.
-/

namespace BaselineAudit.Terminal

/-- Can a character stand in front of the `m` of a colour sequence? -/
def isParameter (c : Char) : Bool := c.isDigit || c == ';'

/-- What stands behind the colour sequence at the start of a text, if there is one. -/
def behindColour? : List Char → Option (List Char)
  | '\x1b' :: '[' :: cs =>
    match cs.dropWhile isParameter with
    | 'm' :: rest => some rest
    | _ => none
  | _ => none

theorem length_lt_of_behindColour? {cs rest : List Char} (h : behindColour? cs = some rest) :
    rest.length < cs.length := by
  unfold behindColour? at h
  split at h
  · rename_i cs
    split at h
    · rename_i back hback
      obtain rfl := Option.some.inj h
      have hle := (List.dropWhile_suffix isParameter (l := cs)).length_le
      rw [hback, List.length_cons] at hle
      simp only [List.length_cons]
      omega
    · exact absurd h (by simp)
  · exact absurd h (by simp)

/-- A text without its colour sequences. -/
def uncoloured : List Char → List Char
  | [] => []
  | c :: cs =>
    match _h : behindColour? (c :: cs) with
    | some rest => uncoloured rest
    | none => c :: uncoloured cs
termination_by cs => cs.length
decreasing_by
  · exact length_lt_of_behindColour? _h
  · exact Nat.lt_succ_self _

theorem uncoloured_of_eq_some {c : Char} {cs rest : List Char}
    (h : behindColour? (c :: cs) = some rest) : uncoloured (c :: cs) = uncoloured rest := by
  rw [uncoloured]
  split <;> simp_all

theorem uncoloured_of_eq_none {c : Char} {cs : List Char} (h : behindColour? (c :: cs) = none) :
    uncoloured (c :: cs) = c :: uncoloured cs := by
  rw [uncoloured]
  split <;> simp_all

/-- Characters stay if none of them starts a sequence. -/
theorem uncoloured_append {cs : List Char} (h : '\x1b' ∉ cs) (rest : List Char) :
    uncoloured (cs ++ rest) = cs ++ uncoloured rest := by
  induction cs with
  | nil => rfl
  | cons c cs ih =>
    have hc : c ≠ '\x1b' := fun hc => h (hc ▸ List.mem_cons_self)
    have hcs : '\x1b' ∉ cs := fun hcs => h (List.mem_cons_of_mem c hcs)
    have hnone : behindColour? (c :: (cs ++ rest)) = none := by
      unfold behindColour?
      split
      · rename_i heq
        exact absurd (List.cons.inj heq).1 hc
      · rfl
    rw [List.cons_append, uncoloured_of_eq_none hnone, ih hcs]
    rfl

/-- A colour sequence goes. -/
theorem uncoloured_sequence {numbers : List Char} (h : numbers.all isParameter = true)
    (rest : List Char) :
    uncoloured ('\x1b' :: '[' :: (numbers ++ 'm' :: rest)) = uncoloured rest := by
  have hback : (numbers ++ 'm' :: rest).dropWhile isParameter = 'm' :: rest := by
    rw [List.dropWhile_append_of_pos (List.all_eq_true.mp h)]
    rfl
  refine uncoloured_of_eq_some ?_
  unfold behindColour?
  simp only [hback]

/-- A text without its colour sequences. -/
def bare (s : String) : String := String.ofList (uncoloured s.toList)

/-- A text without escape characters. -/
def Plain (s : String) : Prop := '\x1b' ∉ s.toList

instance (s : String) : Decidable (Plain s) := inferInstanceAs (Decidable (_ ∉ _))

@[simp] theorem plain_append {s t : String} : Plain (s ++ t) ↔ Plain s ∧ Plain t := by
  simp [Plain]

theorem plain_repr (n : Nat) : Plain n.repr := notMem_toList_repr n rfl

theorem plain_intercalate {s : String} {l : List String} (hs : Plain s) (hl : ∀ t ∈ l, Plain t) :
    Plain (s.intercalate l) := by
  induction l with
  | nil => exact List.not_mem_nil
  | cons t l ih =>
    obtain ⟨ht, hl⟩ := List.forall_mem_cons.mp hl
    by_cases hnil : l = []
    · subst hnil
      simpa using ht
    · rw [String.intercalate_cons_of_ne_nil hnil]
      simp [ht, hs, ih hl]

/-! ## What a text shows -/

/-- A text becomes another one without its colours, whatever stands behind it. -/
def Shows (s shown : String) : Prop :=
  ∀ rest, uncoloured (s.toList ++ rest) = shown.toList ++ uncoloured rest

theorem shows_self {s : String} (h : Plain s) : Shows s s := uncoloured_append h

namespace Shows

theorem bare_eq {s shown : String} (h : Shows s shown) : bare s = shown := by
  have hs := h []
  rw [List.append_nil, uncoloured, List.append_nil] at hs
  rw [bare, hs, String.ofList_toList]

theorem append {s t a b : String} (hs : Shows s a) (ht : Shows t b) : Shows (s ++ t) (a ++ b) := by
  intro rest
  rw [String.toList_append, List.append_assoc, hs, ht, String.toList_append, List.append_assoc]

theorem text {s a t : String} (hs : Shows s a) (ht : Plain t) : Shows (s ++ t) (a ++ t) :=
  hs.append (shows_self ht)

theorem join_map {α : Type} {f g : α → String} {l : List α} (h : ∀ a ∈ l, Shows (f a) (g a)) :
    Shows (String.join (l.map f)) (String.join (l.map g)) := by
  induction l with
  | nil => exact fun _ => rfl
  | cons a l ih =>
    rw [List.map_cons, List.map_cons, String.join_cons, String.join_cons]
    exact (h a List.mem_cons_self).append (ih fun b hb => h b (List.mem_cons_of_mem a hb))

end Shows

theorem shows_start (style : Style) : Shows style.start "" := by
  have hnumbers : style.code.toList.all isParameter = true := by cases style <;> decide
  intro rest
  have h := uncoloured_sequence hnumbers rest
  simpa [Style.start] using h

theorem shows_reset : Shows Style.reset "" :=
  uncoloured_sequence (show [ '0'].all isParameter = true by decide)

/-- Painted text shows what the plain painter writes. -/
theorem shows_paint (p : Painter) (style : Style) {s : String} (h : Plain s) :
    Shows (p.paint style s) (Painter.paint {} style s) := by
  unfold Painter.paint Painter.wrap
  by_cases hp : p.enabled = true
  · rw [if_pos hp]
    have hshows := ((shows_start style).append (shows_self h)).append shows_reset
    simpa using hshows
  · rw [if_neg hp]
    exact shows_self h

end BaselineAudit.Terminal
