import BaselineAudit.Component.Styles
import BaselineAudit.Proofs.Component.Template
import BaselineAudit.Proofs.Script.Statements

/-!
# Expressions in the style text of templates

The style text of a template has blanks over the expressions in it. They are found by the braces around
them, and comments can hold braces, too.

* `Component.exists_replaced`: every template of a component has a style text.
* `Component.IsHoleOf`: the range that is replaced for an expression lies within its interpolation, and
  no other one does (`Component.Holes.isHoleOf`).
* `Component.templateStyles?_blanked_iff`: an expression is always blanked, and its whole interpolation is
  if no `${` stands in the comments in front of it and no `}` in those behind it.
-/

namespace BaselineAudit

open Script Text

namespace Component

/-! ## There is a style text -/

section

variable {cs : List Char} {start stop : Nat} {piece : Piece} {pieces : List Piece} {e range : Span}
  {es ranges holes : List Span}

/-- There is an opening in front of an expression. -/
theorem exists_front {cursor : Nat} (h : Interpolates cs start piece e range)
    (hcut : StandsAt cs cursor []) (hcursor : cursor ≤ start) :
    ∃ before front, slice? cs cursor e.start = some before ∧
      beforeLastPair? '$' '\x7b' before = some front ∧ StandsAt cs (cursor + byteCount front) [] ∧
      cursor + byteCount front ≤ e.start := by
  have hpair : byteCount ['$', '\x7b'] = 2 := rfl
  have hstart := h.start_le
  have hopen := h.front_le
  obtain ⟨before, hbefore⟩ := exists_slice? hcut h.front.cut_stop (by omega)
  obtain ⟨before_at, hsize⟩ := slice?_standsAt hbefore
  obtain ⟨x, y, hxy⟩ := before_at.part h.opening (by omega) (by omega)
  have hsome := beforeLastPair?_ne_none '$' '\x7b' x y
  rw [show x ++ '$' :: '\x7b' :: y = before by rw [hxy]; simp] at hsome
  obtain ⟨front, hfront⟩ := Option.ne_none_iff_exists'.mp hsome
  obtain ⟨tail, rfl, -⟩ := beforeLastPair?_eq hfront
  rw [byteCount_append] at hsize
  exact ⟨_, front, hbefore, hfront, StandsAt.left (v := []) before_at.right, by omega⟩

/-- There is a closing brace behind an expression, at the latest where its interpolation ends. -/
theorem exists_back (h : Interpolates cs start piece e range) (hcut : StandsAt cs stop [])
    (hstop : range.stop ≤ stop) :
    ∃ behind back, slice? cs e.stop stop = some behind ∧
      beforeFirst? (· = '\x7d') behind = some back ∧ StandsAt cs (e.stop + byteCount back + 1) [] ∧
      e.stop + byteCount back + 1 ≤ range.stop := by
  have hsize_brace : byteCount ['\x7d'] = 1 := rfl
  have hclose := h.back_le
  obtain ⟨behind, hbehind⟩ := exists_slice? h.back.cut_start hcut (by omega)
  obtain ⟨behind_at, hsize⟩ := slice?_standsAt hbehind
  obtain ⟨x, y, hxy⟩ := behind_at.part h.closes (by omega) (by omega)
  have hsome := beforeFirst?_ne_none (p := (· = '\x7d')) (c := '\x7d') (by decide) x y
  rw [show x ++ '\x7d' :: y = behind by rw [hxy]; simp] at hsome
  obtain ⟨back, hback⟩ := Option.ne_none_iff_exists'.mp hsome
  obtain ⟨brace, tail, rfl, hbrace, hfirst⟩ := beforeFirst?_eq hback
  obtain rfl : brace = '\x7d' := by simpa using hbrace
  have back_at : StandsAt cs e.stop (back ++ ['\x7d']) :=
    StandsAt.left (w := tail) (by simpa using behind_at)
  refine ⟨_, back, hbehind, hback, ?_, ?_⟩
  · have := StandsAt.right (v := back ++ ['\x7d']) (w := []) (by simpa using back_at)
    rwa [byteCount_append, ← Nat.add_assoc] at this
  · by_contra hlt
    obtain ⟨x', y', rfl⟩ := back_at.left.part h.closes (by omega) (by omega)
    exact absurd (hfirst '\x7d' (by simp)) (by decide)

/-- A template can be read from its start on, or from an earlier place. -/
theorem exists_replaced (h : Laid cs start pieces es ranges stop) {cursor : Nat}
    (hcut : StandsAt cs cursor []) (hcursor : cursor ≤ start) :
    ∃ v, replaced cs (stop - 1) cursor es = some v := by
  have hstop : StandsAt cs (stop - 1) [] := StandsAt.left (v := []) h.closes
  -- behind a comment with a brace in it the rest is read from within an interpolation on
  induction h generalizing cursor with
  | last h => exact exists_slice? hcut hstop (by omega)
  | cons head tail ih =>
    have hlt := tail.lt
    obtain ⟨before, front, hbefore, hfront, front_at, front_le⟩ := exists_front head hcut hcursor
    obtain ⟨behind, back, hbehind, hback, back_at, back_le⟩ := exists_back head hstop (by omega)
    have hle := head.le
    obtain ⟨hole, hhole⟩ := exists_slice? front_at back_at (by omega)
    obtain ⟨rest, hrest⟩ := ih back_at back_le hstop
    refine ⟨front ++ placeholder hole ++ rest, ?_⟩
    rw [replaced]
    refine Option.bind_eq_some_iff.mpr ⟨before, hbefore, ?_⟩
    refine Option.bind_eq_some_iff.mpr ⟨front, hfront, ?_⟩
    refine Option.bind_eq_some_iff.mpr ⟨behind, hbehind, ?_⟩
    refine Option.bind_eq_some_iff.mpr ⟨back, hback, ?_⟩
    refine Option.bind_eq_some_iff.mpr ⟨hole, hhole, ?_⟩
    exact Option.bind_eq_some_iff.mpr ⟨rest, hrest, rfl⟩

/-! ## Ranges and interpolations -/

/-- The range that is replaced for an expression lies in its interpolation, and the other ones lie
outside. -/
structure IsHoleOf (cs : List Char) (holes : List Span) (e range hole : Span) : Prop where
  mem : hole ∈ holes
  isHole : ∃ start stop, IsHole cs start stop e hole
  interpolates : ∃ start piece, Interpolates cs start piece e range
  start_le : range.start ≤ hole.start
  stop_le : hole.stop ≤ range.stop
  apart : ∀ other ∈ holes, other = hole ∨ other.stop ≤ range.start ∨ range.stop ≤ other.start

/-- The last opening in front of an expression is not in front of its own one. -/
theorem IsHole.start_le_of {cursor : Nat} {hole : Span} (h : IsHole cs cursor stop e hole)
    (hrange : Interpolates cs start piece e range) : range.start ≤ hole.start := by
  by_contra hlt
  exact h.opens_last range.start (by omega) hrange.front_le hrange.opening

/-- The first closing brace behind an expression is not behind its own one. -/
theorem IsHole.stop_le_of {cursor : Nat} {hole : Span} (h : IsHole cs cursor stop e hole)
    (hrange : Interpolates cs start piece e range) : hole.stop ≤ range.stop := by
  by_contra hlt
  have hback := hrange.back_le
  exact h.closes_first (range.stop - 1) (by omega) (by omega) hrange.closes

/-- Nothing is replaced in front of a template. -/
theorem Holes.start_le {last cursor : Nat} (h : Laid cs start pieces es ranges stop)
    (hholes : Holes cs last cursor es holes) : ∀ hole ∈ holes, start ≤ hole.start := by
  induction h generalizing cursor holes with
  | last =>
    cases hholes
    simp
  | cons head _ ih =>
    cases hholes with
    | cons hole hholes =>
      intro other hother
      rcases List.mem_cons.mp hother with rfl | hother
      · exact Nat.le_trans head.start_le (hole.start_le_of head)
      · exact Nat.le_trans (Nat.le_of_lt head.start_lt) (ih hholes other hother)

/-- Each expression has the range that is replaced for it in its own interpolation. -/
theorem Holes.isHoleOf {last cursor : Nat} (h : Laid cs start pieces es ranges stop)
    (hholes : Holes cs last cursor es holes) :
    ∀ pair ∈ es.zip ranges, ∃ hole, IsHoleOf cs holes pair.1 pair.2 hole := by
  induction h generalizing cursor holes with
  | last => simp
  | cons head tail ih =>
    cases hholes with
    | @cons _ _ hole _ holes isHole hholes =>
      intro pair hpair
      rcases List.mem_cons.mp hpair with rfl | hpair
      · refine ⟨hole, ?_⟩
        constructor
        case mem => exact List.mem_cons_self
        case isHole => exact ⟨_, _, isHole⟩
        case interpolates => exact ⟨_, _, head⟩
        case start_le => exact isHole.start_le_of head
        case stop_le => exact isHole.stop_le_of head
        case apart =>
          intro other hother
          rcases List.mem_cons.mp hother with rfl | hother
          · exact .inl rfl
          · exact .inr (.inr (hholes.start_le tail other hother))
      · obtain ⟨hole', h'⟩ := ih hholes pair hpair
        refine ⟨hole', { h' with mem := List.mem_cons_of_mem _ h'.mem, apart := ?_ }⟩
        intro other hother
        rcases List.mem_cons.mp hother with rfl | hother
        · have := isHole.stop_le_of head
          have := tail.start_le pair.2 (List.of_mem_zip hpair).2
          exact .inr (.inl (by omega))
        · exact h'.apart other hother

/-! ## Blanks -/

/-- Between two offsets the bytes of a text, whose first one is at `first`, are spaces, newlines and the
digit 0. -/
def Blanked (first : Nat) (out : List UInt8) (range : Span) : Prop :=
  ∀ o, range.start ≤ first + o → first + o < range.stop →
    ∃ b, out[o]? = some b ∧ (b = ' '.toUInt8 ∨ b = newline ∨ b = '0'.toUInt8)

theorem Blanked.mono {first : Nat} {out : List UInt8} {inner outer : Span}
    (h : Blanked first out outer) (hstart : outer.start ≤ inner.start)
    (hstop : inner.stop ≤ outer.stop) : Blanked first out inner :=
  fun o ho ho' => h o (Nat.le_trans hstart ho) (Nat.lt_of_lt_of_le ho' hstop)

/-- What is replaced is blanked. -/
theorem Overlay.blanked {first : Nat} {src out : List UInt8} (h : Overlay first holes src out)
    {hole : Span} (hmem : hole ∈ holes) : Blanked first out hole := by
  intro o hstart hstop
  rcases h.inside hole hmem o hstart hstop with ho | ho | ⟨-, ho⟩
  · exact ⟨_, ho, .inl rfl⟩
  · exact ⟨_, ho, .inr (.inl rfl)⟩
  · exact ⟨_, ho, .inr (.inr rfl)⟩

/-- A character that is not a blank is not kept in a range that is blanked. -/
theorem Blanked.not_standsAt {first p : Nat} {w v : List Char} {c : Char} {b : UInt8}
    (h : Blanked first (bytes v) range) (hover : Overlay first holes (bytes w) (bytes v))
    (hw : StandsAt cs first w) (hfirst : first ≤ p) (hstart : range.start ≤ p) (hstop : p < range.stop)
    (hkept : ∀ hole ∈ holes, ¬(hole.start ≤ p ∧ p < hole.stop)) (hc : bytes [c] = [b])
    (hb : ¬(b = ' '.toUInt8 ∨ b = newline ∨ b = '0'.toUInt8)) : ¬StandsAt cs p [c] := by
  intro hat
  obtain ⟨o, rfl⟩ := Nat.exists_eq_add_of_le hfirst
  obtain ⟨b', hb', hblank⟩ := h o hstart hstop
  have ho : o < byteCount w := by
    have := (List.getElem?_eq_some_iff.mp hb').1
    rwa [hover.length, length_bytes] at this
  have hbyte : some b = some b' := by
    calc some b = (bytes cs)[first + o + 0]? := by
          rw [hat.getElem?_bytes (byteCount_pos (by simp)), hc]
          rfl
      _ = (bytes w)[o]? := hw.getElem?_bytes ho
      _ = (bytes v)[o]? := (hover.outside o hkept).symm
      _ = some b' := hb'
  exact hb (Option.some.inj hbyte ▸ hblank)

theorem IsHoleOf.blanked {first : Nat} {src out : List UInt8} {hole : Span}
    (h : IsHoleOf cs holes e range hole) (hover : Overlay first holes src out) :
    Blanked first out e := by
  obtain ⟨_, _, hhole⟩ := h.isHole
  have hopens := hhole.opens_before
  have hcloses := hhole.closes_behind
  exact (hover.blanked h.mem).mono (by omega) (by omega)

/-- The interpolation of an expression is blanked if it is what is replaced. -/
theorem IsHoleOf.blanked_iff {first : Nat} {w v : List Char} {hole : Span}
    (h : IsHoleOf cs holes e range hole) (hover : Overlay first holes (bytes w) (bytes v))
    (hw : StandsAt cs first w) (hfirst : first ≤ range.start) :
    Blanked first (bytes v) range ↔
      (∀ p, range.start < p → p + 2 ≤ e.start → ¬StandsAt cs p ['$', '\x7b']) ∧
        ∀ p, e.stop ≤ p → p + 1 < range.stop → ¬StandsAt cs p ['\x7d'] := by
  obtain ⟨_, _, hhole⟩ := h.isHole
  obtain ⟨_, _, hrange⟩ := h.interpolates
  have hstart := h.start_le
  have hstop := h.stop_le
  have hbefore := hrange.front_le
  have hbehind := hrange.back_le
  have hle := hrange.le
  have hopens := hhole.opens_before
  have hcloses := hhole.closes_behind
  constructor
  · intro hblank
    -- the first or the last character of an interpolation that is not replaced as a whole is kept
    have kept : ∀ p, range.start ≤ p → p < range.stop → ¬(hole.start ≤ p ∧ p < hole.stop) →
        ∀ other ∈ holes, ¬(other.start ≤ p ∧ p < other.stop) := by
      intro p hp hp' hout other hother
      rcases h.apart other hother with rfl | hother | hother
      · exact hout
      · omega
      · omega
    refine ⟨fun p hp hpe hat => ?_, fun p hep hp hat => ?_⟩
    · have hlt : range.start < hole.start := by
        by_contra hge
        exact hhole.opens_last p (by omega) hpe hat
      exact hblank.not_standsAt hover hw (p := range.start) (c := '$') hfirst (by omega) (by omega)
        (kept _ (by omega) (by omega) (by omega)) rfl (by decide)
        (StandsAt.left (v := ['$']) hrange.opening)
    · have hlt : hole.stop < range.stop := by
        by_contra hge
        exact hhole.closes_first p hep (by omega) hat
      exact hblank.not_standsAt hover hw (p := range.stop - 1) (c := '\x7d') (by omega) (by omega)
        (by omega) (kept _ (by omega) (by omega) (by omega)) rfl (by decide) hrange.closes
  · rintro ⟨hfront, hback⟩
    refine (hover.blanked h.mem).mono ?_ ?_
    · by_contra hlt
      exact hfront hole.start (by omega) hopens hhole.opens
    · by_contra hlt
      exact hback (hole.stop - 1) (by omega) (by omega) hhole.closes

end

/-- Every template of a component has a style text, and the expressions in it are blanked. An
interpolation, from its `${` to its closing brace, is blanked as a whole if and only if there is no
other `${` between its opening and the expression and no other `}` between the expression and its end.
There are only blanks and comments in these places. -/
theorem templateStyles?_blanked_iff {source : String} {c : Component} {t : Tree} {pieces : List Piece}
    (hparse : parse? source = some c) (ht : t ∈ c.tree.nodes) (hshape : t.shape = .template pieces) :
    let first := t.span.start + 1
    let es := t.children.map Tree.span
    ∃ out, templateStyles? source.toList t = some out ∧
      (∃ ranges, Laid source.toList first pieces es ranges t.span.stop) ∧
      ∀ ranges, Laid source.toList first pieces es ranges t.span.stop →
        ∀ e range, (e, range) ∈ es.zip ranges →
          Blanked first (bytes out.toList) e ∧
          (Blanked first (bytes out.toList) range ↔
            (∀ p, range.start < p → p + 2 ≤ e.start → ¬StandsAt source.toList p ['$', '\x7b']) ∧
              ∀ p, e.stop ≤ p → p + 1 < range.stop → ¬StandsAt source.toList p ['\x7d']) := by
  intro first es
  obtain ⟨tree, htree, hc⟩ := Option.bind_eq_some_iff.mp hparse
  obtain rfl : ⟨source, tree⟩ = c := Option.some.inj hc
  have hsited := (parse?_sited htree).nodes tree t ht
  obtain ⟨ranges, hlaid⟩ := hsited.laid hshape
  obtain ⟨v, hv⟩ := exists_replaced hlaid hlaid.cut (Nat.le_refl _)
  obtain ⟨w, holes, w_at, -, hholes, hover⟩ := replaced_overlay hv
  refine ⟨String.ofList v, Option.map_eq_some_iff.mpr ⟨v, hv, rfl⟩, ⟨ranges, hlaid⟩, ?_⟩
  intro ranges hlaid e range hpair
  rw [String.toList_ofList]
  obtain ⟨hole, hhole⟩ := hholes.isHoleOf hlaid _ hpair
  have hfirst : first ≤ range.start := hlaid.start_le range (List.of_mem_zip hpair).2
  exact ⟨hhole.blanked hover, hhole.blanked_iff hover w_at hfirst⟩

/-- The layout of a template with a closing brace in a comment. -/
theorem laid_commented :
    let source := "css`$\x7bx /* \x7d */\x7d$\x7by\x7d`".toList
    Laid source 4 [⟨some "", ""⟩, ⟨some "", ""⟩, ⟨some "", ""⟩] [⟨6, 7⟩, ⟨18, 19⟩]
      [⟨4, 16⟩, ⟨16, 20⟩] 21 := by
  intro source
  have stands : ∀ (start stop : Nat) {w : List Char}, slice? source start stop = some w →
      StandsAt source start w := fun _ _ _ h => (slice?_standsAt h).1
  have nothing : ∀ n, slice? source n n = some [] → Lexer.Padded source n n :=
    fun n h => ⟨[], stands n n h, rfl, .nil⟩
  have comment : Lexer.Padding .blank [' ', '/', '*', ' ', '\x7d', ' ', '*', '/'] :=
    .blank (by decide) (.openBlock (.inBlock (by simp) (.inBlock (by simp) (.inBlock (by simp)
      (.closeBlock .nil)))))
  refine .cons ⟨rfl, stands 4 6 (by decide), nothing 6 (by decide), by decide,
    ⟨_, stands 7 15 (by decide), rfl, comment⟩, stands 15 16 (by decide)⟩ ?_
  refine .cons ⟨rfl, stands 16 18 (by decide), nothing 18 (by decide), by decide,
    nothing 19 (by decide), stands 19 20 (by decide)⟩ ?_
  exact .last (stands 20 21 (by decide))

/-- The script with this template has a tree with this layout. -/
theorem exists_commented :
    ∃ c, parse? "css`$\x7bx /* \x7d */\x7d$\x7by\x7d`" = some c ∧ ∃ t ∈ c.tree.nodes,
      t.shape = .template [⟨some "", ""⟩, ⟨some "", ""⟩, ⟨some "", ""⟩] ∧ t.span = ⟨3, 21⟩ ∧
        t.children.map Tree.span = [⟨6, 7⟩, ⟨18, 19⟩] := by
  have hfound : ((parse? "css`$\x7bx /* \x7d */\x7d$\x7by\x7d`").any fun c => c.tree.nodes.any fun t =>
      t.shape = .template [⟨some "", ""⟩, ⟨some "", ""⟩, ⟨some "", ""⟩] ∧ t.span = ⟨3, 21⟩ ∧
        t.children.map Tree.span = [⟨6, 7⟩, ⟨18, 19⟩]) = true := by decide +kernel
  obtain ⟨c, hc, h⟩ := (Option.any_eq_true _ _).mp hfound
  obtain ⟨t, ht, h⟩ := List.any_eq_true.mp h
  exact ⟨c, hc, t, ht, by simpa using h⟩

/-- The first interpolation has a closing brace in a comment, so it is not blanked as a whole. The second
one is. -/
theorem templateStyles?_blanked_iff_commented :
    let source := "css`$\x7bx /* \x7d */\x7d$\x7by\x7d`"
    let pieces : List Piece := [⟨some "", ""⟩, ⟨some "", ""⟩, ⟨some "", ""⟩]
    ∃ c t out, parse? source = some c ∧ t ∈ c.tree.nodes ∧ t.shape = .template pieces ∧
      templateStyles? source.toList t = some out ∧ Blanked 4 (bytes out.toList) ⟨6, 7⟩ ∧
      ¬Blanked 4 (bytes out.toList) ⟨4, 16⟩ ∧ Blanked 4 (bytes out.toList) ⟨16, 20⟩ := by
  intro source pieces
  obtain ⟨c, hc, t, ht, hshape, hspan, hes⟩ := exists_commented
  obtain ⟨out, hout, -, h⟩ := templateStyles?_blanked_iff hc ht hshape
  rw [hspan, hes] at h
  obtain ⟨hx, hfirst⟩ := h _ laid_commented ⟨6, 7⟩ ⟨4, 16⟩ (by simp)
  obtain ⟨-, hsecond⟩ := h _ laid_commented ⟨18, 19⟩ ⟨16, 20⟩ (by simp)
  refine ⟨c, t, out, hc, ht, hshape, hout, hx, fun hblank => ?_, hsecond.mpr ⟨?_, ?_⟩⟩
  · have hbrace : slice? source.toList 11 12 = some ['\x7d'] := by decide
    exact (hfirst.mp hblank).2 11 (by decide) (by decide) (slice?_standsAt hbrace).1
  · intro p hp hp'
    simp only at hp hp'
    omega
  · intro p hp hp'
    simp only at hp hp'
    omega

/-- The text of a comment behind an expression is kept, if a closing brace stands in it. -/
theorem templateStyles?_comment_kept :
    let source := "css`$\x7bx /* \x7d */\x7d$\x7by\x7d`"
    let pieces : List Piece := [⟨some "", ""⟩, ⟨some "", ""⟩, ⟨some "", ""⟩]
    ∃ c t, parse? source = some c ∧ t ∈ c.tree.nodes ∧ t.shape = .template pieces ∧
      Laid source.toList (t.span.start + 1) pieces (t.children.map Tree.span) [⟨4, 16⟩, ⟨16, 20⟩]
        t.span.stop ∧
      templateStyles? source.toList t = some "       0 */\x7d   0" ∧
      ¬Blanked (t.span.start + 1) (bytes "       0 */\x7d   0".toList) ⟨4, 16⟩ := by
  intro source pieces
  obtain ⟨c, hc, t, ht, hshape, hspan, hes⟩ := exists_commented
  refine ⟨c, t, hc, ht, hshape, ?_, ?_, ?_⟩
  · rw [hspan, hes]
    exact laid_commented
  · rw [templateStyles?, hspan, hes]
    decide
  · rw [hspan]
    intro hblank
    obtain ⟨b, hb, hb'⟩ := hblank 9 (by decide) (by decide)
    obtain rfl : '*'.toUInt8 = b := Option.some.inj hb
    exact absurd hb' (by decide)

end Component

end BaselineAudit
