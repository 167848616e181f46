import BaselineAudit.Component.Template
import BaselineAudit.Proofs.Text.Bytes

/-!
# Bytes of templates

The style text of a template is its source with blanks over the expressions in it. No byte moves.

* `Component.IsHole`, `Component.Holes`: the ranges that are replaced, by the braces that stand around
  the expressions.
* `Component.bytes_placeholder`: what stands in place of an expression, byte by byte.
* `Component.Overlay`: a text with blanks over some ranges of another one. Such texts can be put one
  behind the other (`Component.Overlay.append`).
* `Component.replaced_overlay`: what is read off a template is one, so it is in step with the source
  (`Component.replaced_aligned`).
* `Component.templateStyles?_bytes`: what each byte of the style text is, and where it stands.
-/

namespace BaselineAudit.Component

open Script Text

/-! ## Ranges -/

/-- The range that is replaced for an expression of a template, of which the part from `start` to
`stop` is still to be read: from the last opening in front of the expression to the first closing brace
behind it. -/
structure IsHole (cs : List Char) (start stop : Nat) (e hole : Span) : Prop where
  start_le : start ≤ hole.start
  opens : StandsAt cs hole.start ['$', '\x7b']
  opens_before : hole.start + 2 ≤ e.start
  opens_last : ∀ p, hole.start < p → p + 2 ≤ e.start → ¬StandsAt cs p ['$', '\x7b']
  closes : StandsAt cs (hole.stop - 1) ['\x7d']
  closes_behind : e.stop + 1 ≤ hole.stop
  closes_first : ∀ p, e.stop ≤ p → p + 1 < hole.stop → ¬StandsAt cs p ['\x7d']
  le_stop : hole.stop ≤ stop

/-- The ranges that are replaced for expressions, each read behind the one in front of it. -/
inductive Holes (cs : List Char) (stop : Nat) : (start : Nat) → List Span → List Span → Prop
  | nil {start : Nat} : Holes cs stop start [] []
  | cons {start : Nat} {e hole : Span} {es holes : List Span} (head : IsHole cs start stop e hole)
      (tail : Holes cs stop hole.stop es holes) : Holes cs stop start (e :: es) (hole :: holes)

/-- Reading up to the end of an expression: the text in front of its range, the range, and the rest. -/
theorem replaced_cons {cs v : List Char} {stop start : Nat} {e : Span} {es : List Span}
    (h : replaced cs stop start (e :: es) = some v) :
    ∃ front hole rest, v = front ++ placeholder hole ++ rest ∧ StandsAt cs start (front ++ hole) ∧
      IsHole cs start stop e ⟨start + byteCount front, start + byteCount (front ++ hole)⟩ ∧
      replaced cs stop (start + byteCount (front ++ hole)) es = some rest := by
  rw [replaced] at h
  obtain ⟨before, hbefore, h⟩ := Option.bind_eq_some_iff.mp h
  obtain ⟨front, hfront, h⟩ := Option.bind_eq_some_iff.mp h
  obtain ⟨behind, hbehind, h⟩ := Option.bind_eq_some_iff.mp h
  obtain ⟨back, hback, h⟩ := Option.bind_eq_some_iff.mp h
  obtain ⟨hole, hhole, h⟩ := Option.bind_eq_some_iff.mp h
  obtain ⟨rest, hrest, h⟩ := Option.bind_eq_some_iff.mp h
  obtain rfl : front ++ placeholder hole ++ rest = v := Option.some.inj h
  obtain ⟨before_at, hbefore⟩ := slice?_standsAt hbefore
  obtain ⟨behind_at, hbehind⟩ := slice?_standsAt hbehind
  obtain ⟨hole_at, hstop⟩ := slice?_standsAt hhole
  obtain ⟨tail, rfl, hlast⟩ := beforeLastPair?_eq hfront
  obtain ⟨brace, tail', rfl, hbrace, hfirst⟩ := beforeFirst?_eq hback
  obtain rfl : brace = '\x7d' := by simpa using hbrace
  have hdollar : '$'.utf8Size = 1 := rfl
  have hopen : '\x7b'.utf8Size = 1 := rfl
  have hclose : '\x7d'.utf8Size = 1 := rfl
  have hstop : start + byteCount front + byteCount hole = e.stop + byteCount back + 1 := hstop
  simp only [byteCount_append, byteCount_cons, hdollar, hopen, hclose] at hbefore hbehind
  have front_at : StandsAt cs start front := before_at.left
  have pair_at : StandsAt cs (start + byteCount front) ('$' :: '\x7b' :: tail) := before_at.right
  have open_at : StandsAt cs (start + byteCount front + 1) ('\x7b' :: tail) :=
    StandsAt.right (v := ['$']) pair_at
  have brace_at : StandsAt cs (e.stop + byteCount back) ['\x7d'] :=
    StandsAt.left (w := tail') behind_at.right
  have hend : start + byteCount (front ++ hole) = e.stop + byteCount back + 1 := by
    rw [byteCount_append, ← Nat.add_assoc, hstop]
  refine ⟨front, hole, rest, rfl, front_at.append hole_at, ?_, hend ▸ hrest⟩
  rw [hend]
  constructor
  case start_le => exact Nat.le_add_right _ _
  case opens => exact StandsAt.left (v := ['$', '\x7b']) (w := tail) pair_at
  case opens_before => simp only; omega
  case opens_last =>
    intro p hp hpe p_at
    have hpair : byteCount ['$', '\x7b'] = 2 := rfl
    obtain ⟨x, y, hxy⟩ := open_at.part p_at hp (by rw [hpair, byteCount_cons, hopen]; omega)
    exact hlast x y (by rw [hxy]; simp)
  case closes => exact brace_at
  case closes_behind => simp only; omega
  case closes_first =>
    intro p hp hpb p_at
    have hsize : byteCount ['\x7d'] = 1 := rfl
    have hpb : p + 1 < e.stop + byteCount back + 1 := hpb
    obtain ⟨x, y, rfl⟩ := behind_at.left.part p_at hp (by rw [hsize]; omega)
    exact absurd (hfirst '\x7d' (by simp)) (by decide)
  case le_stop => simp only; omega

/-! ## Blanks -/

/-- What a byte is replaced by. -/
def blank (b : UInt8) : UInt8 := if b = newline then newline else ' '.toUInt8

theorem bytes_replicate_blank (n : Nat) :
    bytes (List.replicate n ' ') = List.replicate n ' '.toUInt8 := by
  induction n with
  | zero => rfl
  | succ n ih => rw [List.replicate_succ, bytes_cons, ih]; rfl

theorem map_blank_of_notMem {bs : List UInt8} (h : newline ∉ bs) :
    bs.map blank = List.replicate bs.length ' '.toUInt8 := by
  refine List.eq_replicate_iff.mpr ⟨List.length_map _, fun b hb => ?_⟩
  obtain ⟨a, ha, rfl⟩ := List.mem_map.mp hb
  have hne : a ≠ newline := fun hn => h (hn ▸ ha)
  exact if_neg hne

/-- What stands in place of an expression, byte by byte: blanks and newlines, and a digit at the
end. -/
theorem bytes_placeholder {hole : List Char} (h : hole ≠ []) :
    bytes (placeholder hole) = (bytes hole).dropLast.map blank ++ ['0'.toUInt8] := by
  fun_induction placeholder hole with
  | case1 => exact absurd rfl h
  | case2 c =>
    have hbytes : bytes [c] = String.utf8EncodeChar c := by simp
    rw [bytes_append, bytes_replicate_blank, hbytes]
    congr 1
    by_cases hc : c = '\n'
    · subst hc
      rfl
    · rw [map_blank_of_notMem fun hmem =>
        hc (newline_mem_utf8EncodeChar.mp (List.dropLast_subset _ hmem)), List.length_dropLast,
        String.length_utf8EncodeChar]
  | case3 c cs hcs ih =>
    have hne : bytes cs ≠ [] := by
      have hpos := byteCount_pos hcs
      rw [← length_bytes] at hpos
      exact List.ne_nil_of_length_pos hpos
    rw [bytes_append, ih hcs, bytes_cons, List.dropLast_append_of_ne_nil hne, List.map_append,
      List.append_assoc]
    congr 1
    split
    next hc =>
      subst hc
      rfl
    next hc =>
      rw [bytes_replicate_blank, map_blank_of_notMem (mt newline_mem_utf8EncodeChar.mp hc),
        String.length_utf8EncodeChar]

theorem getElem?_placeholder (hole : List Char) (o : Nat) :
    (bytes (placeholder hole))[o]? =
      if o + 1 = byteCount hole then some '0'.toUInt8 else (bytes hole)[o]?.map blank := by
  by_cases hne : hole = []
  · subst hne
    rfl
  have hlength := length_bytes hole
  have hpos := byteCount_pos hne
  rw [bytes_placeholder hne]
  by_cases ho : o + 1 < byteCount hole
  · rw [List.getElem?_append_left (by simp only [List.length_map, List.length_dropLast]; omega),
      List.getElem?_map, List.getElem?_dropLast, if_pos (by omega), if_neg (by omega)]
  · rw [List.getElem?_append_right (by simp only [List.length_map, List.length_dropLast]; omega),
      List.length_map, List.length_dropLast]
    by_cases hlast : o + 1 = byteCount hole
    · rw [if_pos hlast, show o - ((bytes hole).length - 1) = 0 by omega]
      rfl
    · rw [if_neg hlast, List.getElem?_eq_none (by simp only [List.length_singleton]; omega),
        List.getElem?_eq_none (by omega)]
      rfl

theorem blank_eq_newline_iff {b : UInt8} : blank b = newline ↔ b = newline := by
  unfold blank
  split
  next h => simp [h]
  next h => simp only [h, iff_false]; decide

/-- The last byte of a text is a newline only if its last character is one. -/
theorem getLast_bytes_ne_newline {cs : List Char} (h : cs.getLast? ≠ some '\n') {o : Nat}
    (ho : o + 1 = byteCount cs) : (bytes cs)[o]? ≠ some newline := by
  rcases List.eq_nil_or_concat cs with rfl | ⟨front, c, rfl⟩
  · exact absurd ho (Nat.succ_ne_zero o)
  rw [List.concat_eq_append] at h ho ⊢
  have hc : c ≠ '\n' := by simpa using h
  have hsize := c.utf8Size_pos
  simp only [byteCount_append, byteCount_cons, byteCount_nil] at ho
  intro hlast
  rw [bytes_append, List.getElem?_append_right (by rw [length_bytes]; omega)] at hlast
  have hmem := List.mem_of_getElem? hlast
  rw [newline_mem_bytes, List.mem_singleton] at hmem
  exact hc hmem.symm

/-! ## Texts with blanks over them -/

/-- A text with blanks over some ranges of another one, whose first byte is at `start`. -/
structure Overlay (start : Nat) (holes : List Span) (src out : List UInt8) : Prop where
  length : out.length = src.length
  within : ∀ hole ∈ holes, start ≤ hole.start ∧ hole.stop ≤ start + src.length
  newlines : ∀ o : Nat, out[o]? = some newline ↔ src[o]? = some newline
  outside : ∀ o : Nat, (∀ hole ∈ holes, ¬(hole.start ≤ start + o ∧ start + o < hole.stop)) →
    out[o]? = src[o]?
  inside : ∀ hole ∈ holes, ∀ o : Nat, hole.start ≤ start + o → start + o < hole.stop →
    out[o]? = some ' '.toUInt8 ∨ out[o]? = some newline ∨
      start + o + 1 = hole.stop ∧ out[o]? = some '0'.toUInt8

namespace Overlay

theorem refl (start : Nat) (bs : List UInt8) : Overlay start [] bs bs :=
  ⟨rfl, by simp, fun _ => Iff.rfl, fun _ _ => rfl, by simp⟩

/-- Texts with blanks over them, one behind the other. -/
theorem append {start : Nat} {holes holes' : List Span} {src src' out out' : List UInt8}
    (h : Overlay start holes src out) (h' : Overlay (start + src.length) holes' src' out') :
    Overlay start (holes ++ holes') (src ++ src') (out ++ out') := by
  have hlength := h.length
  have hlength' := h'.length
  have left : ∀ {o : Nat}, o < src.length →
      (out ++ out')[o]? = out[o]? ∧ (src ++ src')[o]? = src[o]? := by
    intro o ho
    exact ⟨List.getElem?_append_left (by omega), List.getElem?_append_left ho⟩
  have right : ∀ {o : Nat}, src.length ≤ o →
      (out ++ out')[o]? = out'[o - src.length]? ∧ (src ++ src')[o]? = src'[o - src.length]? := by
    intro o ho
    rw [List.getElem?_append_right (by omega), List.getElem?_append_right ho, hlength]
    exact ⟨rfl, rfl⟩
  have shift : ∀ {o : Nat}, src.length ≤ o → start + src.length + (o - src.length) = start + o := by
    omega
  constructor
  case length => simp [hlength, hlength']
  case within =>
    intro hole hmem
    rw [List.length_append]
    rcases List.mem_append.mp hmem with hmem | hmem
    · have := h.within hole hmem
      omega
    · have := h'.within hole hmem
      omega
  case newlines =>
    intro o
    by_cases ho : o < src.length
    · rw [(left ho).1, (left ho).2, h.newlines]
    · have ho := Nat.le_of_not_lt ho
      rw [(right ho).1, (right ho).2, h'.newlines]
  case outside =>
    intro o hout
    by_cases ho : o < src.length
    · rw [(left ho).1, (left ho).2]
      exact h.outside o fun hole hmem => hout hole (List.mem_append_left _ hmem)
    · have ho := Nat.le_of_not_lt ho
      rw [(right ho).1, (right ho).2]
      refine h'.outside _ fun hole hmem => ?_
      rw [shift ho]
      exact hout hole (List.mem_append_right _ hmem)
  case inside =>
    intro hole hmem o hstart hstop
    rcases List.mem_append.mp hmem with hmem | hmem
    · have hwithin := h.within hole hmem
      have ho : o < src.length := by omega
      rw [(left ho).1]
      exact h.inside hole hmem o hstart hstop
    · have hwithin := h'.within hole hmem
      have ho : src.length ≤ o := by omega
      rw [(right ho).1, ← shift ho]
      exact h'.inside hole hmem _ (by rw [shift ho]; exact hstart) (by rw [shift ho]; exact hstop)

/-- The blanks in place of an expression lie over it. They keep its newlines, as a brace ends it. -/
theorem of_placeholder (start : Nat) {hole : List Char} (h : hole.getLast? ≠ some '\n') :
    Overlay start [⟨start, start + byteCount hole⟩] (bytes hole) (bytes (placeholder hole)) := by
  have hget := getElem?_placeholder hole
  have hlength := length_bytes hole
  constructor
  case length =>
    by_cases hne : hole = []
    · rw [hne]
      rfl
    · have := byteCount_pos hne
      simp only [bytes_placeholder hne, List.length_append, List.length_map, List.length_dropLast,
        List.length_singleton]
      omega
  case within => simp
  case newlines =>
    intro o
    rw [hget]
    split
    next ho =>
      have hlast := getLast_bytes_ne_newline h ho
      simp only [hlast, iff_false]
      decide
    next =>
      cases (bytes hole)[o]? with
      | none => simp
      | some b => simpa using blank_eq_newline_iff
  case outside =>
    intro o hout
    have ho : byteCount hole ≤ o := by
      have := hout _ (List.mem_singleton.mpr rfl)
      simp only at this
      omega
    rw [hget, if_neg (by omega), List.getElem?_eq_none (by omega)]
    rfl
  case inside =>
    intro range hmem o hstart hstop
    obtain rfl := List.mem_singleton.mp hmem
    have ho : o < (bytes hole).length := by
      simp only at hstop
      omega
    rw [hget]
    split
    next hlast => exact .inr (.inr ⟨by simp only; omega, rfl⟩)
    next =>
      rw [List.getElem?_eq_getElem ho, Option.map_some, blank]
      split
      · exact .inr (.inl rfl)
      · exact .inl rfl

/-- A text with blanks over it keeps its lines. -/
theorem aligned {start : Nat} {holes : List Span} {v w : List Char}
    (h : Overlay start holes (bytes w) (bytes v)) : Aligned v w :=
  .of_bytes (by simpa using h.length) h.newlines

end Overlay

/-- What is read off a template is what stands there, with blanks over the expressions. -/
theorem replaced_overlay {cs : List Char} {stop start : Nat} {es : List Span} {v : List Char}
    (h : replaced cs stop start es = some v) :
    ∃ w holes, StandsAt cs start w ∧ start + byteCount w = stop ∧ Holes cs stop start es holes ∧
      Overlay start holes (bytes w) (bytes v) := by
  induction es generalizing start v with
  | nil =>
    obtain ⟨hat, hstop⟩ := slice?_standsAt h
    exact ⟨v, [], hat, hstop, .nil, .refl start _⟩
  | cons e es ih =>
    obtain ⟨front, hole, rest, rfl, hat, hhole, hrest⟩ := replaced_cons h
    obtain ⟨w, holes, w_at, hstop, hholes, hover⟩ := ih hrest
    have hlast : hole.getLast? ≠ some '\n' := by
      by_cases hne : hole = []
      · simp [hne]
      · have hend := hhole.closes_behind
        rw [hat.right.getLast?_eq hhole.closes ?_ hne]
        · decide
        · have hsize : '\x7d'.utf8Size = 1 := rfl
          simp only [byteCount_append] at hend ⊢
          omega
    refine ⟨front ++ hole ++ w, _, hat.append w_at, ?_, .cons hhole hholes, ?_⟩
    · rw [byteCount_append, ← Nat.add_assoc, hstop]
    · have hfront := Overlay.refl start (bytes front)
      have hplace := Overlay.of_placeholder (start + (bytes front).length) hlast
      simp only [byteCount_append, ← Nat.add_assoc] at hover ⊢
      simpa [Nat.add_assoc] using (hfront.append hplace).append (by simpa [Nat.add_assoc] using hover)

/-- What is read off a template is in step with what stands there. -/
theorem replaced_aligned {cs : List Char} {stop start : Nat} {es : List Span} {v : List Char}
    (h : replaced cs stop start es = some v) : ∃ w, StandsAt cs start w ∧ Aligned v w := by
  obtain ⟨w, holes, hat, -, -, hover⟩ := replaced_overlay h
  exact ⟨w, hat, hover.aligned⟩

/-! ## Style text -/

/-- The style text of a template has as many bytes as stand between its quotes, and newlines where the
source has them. Outside of the ranges that are replaced it is the source, and inside there are blanks,
newlines, and a digit at the end of each. So a place in it is the same place in the source. -/
theorem templateStyles?_bytes (source : String) (template : Tree) (out : String)
    (h : templateStyles? source.toList template = some out) :
    let first := template.span.start + 1
    let index := LineIndex.ofText source
    first + out.utf8ByteSize = template.span.stop - 1 ∧
      (∀ o < out.utf8ByteSize, (bytes out.toList)[o]? = some newline ↔
        (bytes source.toList)[first + o]? = some newline) ∧
      (∃ holes, Holes source.toList (template.span.stop - 1) first (template.children.map Tree.span)
          holes ∧
        (∀ o < out.utf8ByteSize,
          (∀ hole ∈ holes, ¬(hole.start ≤ first + o ∧ first + o < hole.stop)) →
            (bytes out.toList)[o]? = (bytes source.toList)[first + o]?) ∧
        ∀ hole ∈ holes, ∀ o, hole.start ≤ first + o → first + o < hole.stop →
          (bytes out.toList)[o]? = some ' '.toUInt8 ∨ (bytes out.toList)[o]? = some newline ∨
            first + o + 1 = hole.stop ∧ (bytes out.toList)[o]? = some '0'.toUInt8) ∧
      ∀ o ≤ out.utf8ByteSize,
        (Origin.verbatim (index.locate first)).map ((LineIndex.ofText out).locate o) =
          index.locate (first + o) := by
  intro first index
  obtain ⟨v, hv, rfl⟩ := Option.map_eq_some_iff.mp h
  obtain ⟨w, holes, hat, hstop, hholes, hover⟩ := replaced_overlay hv
  have hsize : (String.ofList v).utf8ByteSize = byteCount w := by
    rw [← byteCount_toList, String.toList_ofList, hover.aligned.size]
  rw [hsize, String.toList_ofList]
  refine ⟨hstop, fun o ho => ?_, ⟨holes, hholes, fun o ho hout => ?_, hover.inside⟩, fun o ho => ?_⟩
  · rw [hat.getElem?_bytes ho]
    exact hover.newlines o
  · rw [hat.getElem?_bytes ho]
    exact hover.outside o hout
  · rw [LineIndex.locate_eq, LineIndex.locate_eq, LineIndex.locate_eq, String.toList_ofList]
    exact hover.aligned.map_move hat (hover.aligned.size ▸ ho)

/-- A template with a letter of two bytes in front of an expression that starts on a new line: the unit
behind it is at its place on the second line. -/
theorem templateStyles?_bytes_two_lines :
    let template : Tree := .node (.template []) ⟨0, 11⟩ [.leaf (.reference "x") ⟨6, 7⟩]
    templateStyles? "`é$\x7b\nx\x7dpx`".toList template = some "é  \n 0px" ∧
      "é  \n 0px".utf8ByteSize = 9 ∧
      (Origin.verbatim ((LineIndex.ofText "`é$\x7b\nx\x7dpx`").locate 1)).map
        ((LineIndex.ofText "é  \n 0px").locate 7) = ⟨2, 3⟩ := by
  intro template
  have h : templateStyles? "`é$\x7b\nx\x7dpx`".toList template = some "é  \n 0px" := by decide
  obtain ⟨hsize, -, -, hplace⟩ := templateStyles?_bytes _ template _ h
  have hstop : template.span.stop = 11 := rfl
  have hstart : template.span.start = 0 := rfl
  have hsize : "é  \n 0px".utf8ByteSize = 9 := by
    rw [hstop, hstart] at hsize
    omega
  exact ⟨h, hsize, (hplace 7 (by omega)).trans (by decide)⟩

end BaselineAudit.Component
