import BaselineAudit.Html.Document
import BaselineAudit.Proofs.Parsing.Shape

/-!
# The blocks of a document

The style sheets and scripts of a document stand in its text one behind the other, each as it is.

* `scan_forward`: the scanner only finds places behind the one it is given.
* `Block.Spread`: blocks stand in a text one behind the other.
* `Document.blocks_spread`: the blocks of a document are spread over its text.
-/

namespace BaselineAudit.Html

open Parsing

/-! ## Scanning -/

theorem reaches_rawEnd {p stop : Place} {closing wanted : List Char} {passed : Extent}
    {cs : List Char} (hs : p.Reaches stop) (hp : p.Reaches ⟨passed, cs⟩) :
    p.Reaches (rawEnd closing wanted stop passed cs) := by
  induction cs generalizing wanted stop passed with
  | nil =>
    rw [rawEnd]
    exact hs
  | cons c cs ih =>
    have hnext := hp.trans (Place.reaches_cons passed c cs)
    cases wanted with
    | nil =>
      rw [rawEnd]
      · exact hs
      · simp
    | cons w wanted =>
      rw [rawEnd]
      split
      · exact hs
      · simp only
        split
        · exact ih hs hnext
        · exact ih hnext hnext

theorem reaches_commentEnd {p q : Place} {dashes : Nat} {passed : Extent} {cs : List Char}
    (hp : p.Reaches ⟨passed, cs⟩) (h : commentEnd dashes passed cs = some q) : p.Reaches q := by
  induction cs generalizing dashes passed with
  | nil => exact absurd h (by simp [commentEnd])
  | cons c cs ih =>
    have hnext := hp.trans (Place.reaches_cons passed c cs)
    rw [commentEnd] at h
    split at h
    · exact absurd h (by simp)
    · split at h
      · exact ih hnext h
      · split at h
        · rw [← Option.some.inj h]
          exact hnext
        · exact ih hnext h

/-- The scanner only finds places behind the one it is given. -/
theorem scan_forward {memory : Option OpenTags} {wanted : NatSet} {p : Place}
    {r : Scanned (Option OpenTags)} (h : scan memory wanted p = some r) :
    p.Reaches r.start ∧ p.Reaches r.stop := by
  have hmark := Language.reaches_skipMark p
  unfold scan at h
  simp only at h
  generalize Language.skipMark p = m at h hmark
  generalize (memory.map OpenTags.tags).getD [] = tags at h
  split at h
  · -- the text of a script or style sheet
    split at h
    · exact absurd h (by simp)
    · rw [← Option.some.inj h]
      exact ⟨hmark, hmark.trans (reaches_rawEnd (.refl _) (.refl _))⟩
  · have hblank := hmark.trans (m.reaches_skipWhile isBlank)
    generalize m.skipWhile isBlank = q at h hblank
    have himplicit : ∀ {behind}, (if NatSet.mem TagToken.implicitEnd.index wanted = true then
        (endImplicitly tags behind).bind fun tags =>
          some (Scanned.mk TagToken.implicitEnd.index q q (some (OpenTags.ofTags tags)))
        else none) = some r → p.Reaches r.start ∧ p.Reaches r.stop := by
      intro behind h
      split at h
      · obtain ⟨tags, -, h⟩ := Option.bind_eq_some_iff.mp h
        rw [← Option.some.inj h]
        exact ⟨hblank, hblank⟩
      · exact absurd h (by simp)
    split at h
    · exact himplicit h
    · exact himplicit h
    · rename_i cs hrest
      obtain ⟨stop, hstop, h⟩ := Option.bind_eq_some_iff.mp h
      rw [← Option.some.inj h]
      refine ⟨hblank, reaches_commentEnd (hblank.trans ⟨"<!--".toList, ?_, rfl⟩) hstop⟩
      exact hrest
    · exact absurd h (by simp)
    · exact himplicit h
    · have hnext := hblank.trans (q.reaches_next.trans q.next.reaches_next)
      split at h
      · split at h <;>
          (rw [← Option.some.inj h]; exact ⟨hblank, hnext⟩)
      · exact absurd h (by simp)
    · have hname := hblank.trans (q.reaches_skipWhile isNameChar)
      split at h
      · split at h
        · exact absurd h (by simp)
        · split at h
          · rw [← Option.some.inj h]
            exact ⟨hblank, hname⟩
          · split at h <;>
              (rw [← Option.some.inj h]; exact ⟨hblank, hname⟩)
      · exact absurd h (by simp)

theorem tidy_grammar : grammar.productions.Tidy where
  steps := by decide +kernel
  extras := by decide +kernel
  shown := by decide +kernel

/-! ## Blocks -/

/-- Blocks stand in a text one behind the other, as they are, between two offsets. -/
def Block.Spread (cs : List Char) : (lo hi : Nat) → List Block → Prop
  | lo, hi, [] => lo ≤ hi
  | lo, hi, b :: rest => ∃ front back, cs = front ++ b.text.toList ++ back ∧ lo ≤ byteCount front ∧
      b.start = Location.move ⟨1, 1⟩ cs (byteCount front) ∧
      Spread cs (byteCount front + byteCount b.text.toList) hi rest

namespace Block

theorem Spread.le {cs : List Char} {lo hi : Nat} {bs : List Block} (h : Spread cs lo hi bs) :
    lo ≤ hi := by
  induction bs generalizing lo with
  | nil => exact h
  | cons b bs ih =>
    obtain ⟨front, back, -, hlo, -, hrest⟩ := h
    have := ih hrest
    omega

theorem Spread.mono {cs : List Char} {lo lo' hi : Nat} {bs : List Block} (h : Spread cs lo hi bs)
    (hlo : lo' ≤ lo) : Spread cs lo' hi bs := by
  cases bs with
  | nil => exact Nat.le_trans hlo h
  | cons b bs =>
    obtain ⟨front, back, hcs, hle, hstart, hrest⟩ := h
    exact ⟨front, back, hcs, Nat.le_trans hlo hle, hstart, hrest⟩

theorem Spread.append {cs : List Char} {lo mid hi : Nat} {bs bs' : List Block}
    (h : Spread cs lo mid bs) (h' : Spread cs mid hi bs') : Spread cs lo hi (bs ++ bs') := by
  induction bs generalizing lo with
  | nil => exact h'.mono h
  | cons b bs ih =>
    obtain ⟨front, back, hcs, hle, hstart, hrest⟩ := h
    exact ⟨front, back, hcs, hle, hstart, ih hrest⟩

theorem Spread.filter {cs : List Char} {lo hi : Nat} {bs : List Block} (h : Spread cs lo hi bs)
    (p : Block → Bool) : Spread cs lo hi (bs.filter p) := by
  induction bs generalizing lo with
  | nil => exact h
  | cons b bs ih =>
    obtain ⟨front, back, hcs, hle, hstart, hrest⟩ := h
    rw [List.filter_cons]
    split
    · exact ⟨front, back, hcs, hle, hstart, ih hrest⟩
    · exact (ih hrest).mono (by omega)

end Block

namespace Document

section

variable {d : Document} {front w : List Char} (back : List Char) {kind : BlockKind}

/-- The text of a document as it is. -/
theorem text_of_laid {n : Node} (hd : d.chars = front ++ w ++ back)
    (hn : n.Laid (.ofChars front) w) : ∃ u text, w = u ++ text ∧
      n.start.bytes = byteCount (front ++ u) ∧ (n.text d.chars).toList = text := by
  obtain ⟨⟨u, text, rfl, hstart, hsize⟩, -⟩ := Node.laid_iff.mp hn
  refine ⟨u, text, rfl, ?_, ?_⟩
  · rw [hstart]
    simp
  · have hcs : d.chars = (front ++ u) ++ (text ++ back) := by rw [hd]; simp
    rw [Node.text, hstart, hsize, hcs, ← Extent.ofChars_append, Extent.chars_ofChars,
      Extent.chars_ofChars, List.drop_left, List.take_left, String.toList_ofList]

theorem block?_spread {n : Node} (hd : d.chars = front ++ w ++ back)
    (hn : n.Laid (.ofChars front) w) :
    Block.Spread d.chars (byteCount front) (byteCount (front ++ w))
      (d.block? (LineIndex.ofText (String.ofList d.chars)).locate kind n).toList := by
  obtain ⟨u, text, rfl, hstart, htext⟩ := text_of_laid back hd hn
  unfold block?
  simp only
  split
  · simp [Block.Spread]
  · refine ⟨front ++ u, back, ?_, by simp, ?_, ?_⟩
    · simp only [htext]
      rw [hd]
      simp
    · rw [LineIndex.locate_eq, hstart, String.toList_ofList]
    · simp [Block.Spread, htext, Nat.add_assoc]

theorem filterMap_block?_spread {ns : List Node} (hd : d.chars = front ++ w ++ back)
    (hn : Node.LaidAll (.ofChars front) w ns) :
    Block.Spread d.chars (byteCount front) (byteCount (front ++ w))
      (ns.filterMap (d.block? (LineIndex.ofText (String.ofList d.chars)).locate kind)) := by
  induction ns generalizing front w with
  | nil => simp [Block.Spread]
  | cons n ns ih =>
    obtain ⟨u, v, rfl, hu, hv⟩ := Node.laidAll_cons.mp hn
    rw [← Extent.ofChars_append] at hv
    have hfirst : Block.Spread _ _ _ (d.block? _ kind n).toList :=
      block?_spread (v ++ back) (by rw [hd]; simp) hu
    have hrest := ih (by rw [hd]; simp) hv
    rw [← List.append_assoc, List.filterMap_cons]
    cases hb : d.block? (LineIndex.ofText (String.ofList d.chars)).locate kind n with
    | none =>
      rw [hb] at hfirst
      exact hrest.mono hfirst.le
    | some b =>
      rw [hb] at hfirst
      exact hfirst.append hrest

end

mutual

/-- The blocks in a node are spread over its text. -/
theorem blocksOf_spread {d : Document} : (n : Node) → {front w : List Char} →
    (back : List Char) → d.chars = front ++ w ++ back → n.Laid (.ofChars front) w →
    Block.Spread d.chars (byteCount front) (byteCount (front ++ w))
      (d.blocksOf (LineIndex.ofText (String.ofList d.chars)).locate n)
  | ⟨label, start, size, hasError, children⟩, front, w, back, hd, hn => by
    have hchildren := (Node.laid_iff.mp hn).2
    have hnone : Block.Spread d.chars (byteCount front) (byteCount (front ++ w)) [] := by
      simp [Block.Spread]
    rw [blocksOf]
    split
    · exact hnone
    · split
      · split
        · exact hnone
        · exact filterMap_block?_spread back hd hchildren
      · exact blocksOfAll_spread children back hd hchildren

/-- The blocks in nodes are spread over their text. -/
theorem blocksOfAll_spread {d : Document} : (ns : List Node) → {front w : List Char} →
    (back : List Char) → d.chars = front ++ w ++ back → Node.LaidAll (.ofChars front) w ns →
    Block.Spread d.chars (byteCount front) (byteCount (front ++ w))
      (d.blocksOfAll (LineIndex.ofText (String.ofList d.chars)).locate ns)
  | [], front, w, back, hd, hn => by
    rw [blocksOfAll]
    simp [Block.Spread]
  | n :: ns, front, w, back, hd, hn => by
    obtain ⟨u, v, rfl, hu, hv⟩ := Node.laidAll_cons.mp hn
    rw [← Extent.ofChars_append] at hv
    have hfirst := blocksOf_spread n (v ++ back) (by rw [hd]; simp) hu
    have hrest := blocksOfAll_spread ns back (by rw [hd]; simp) hv
    rw [blocksOfAll, ← List.append_assoc]
    exact hfirst.append hrest

end

-- The parser is not to be run on the text, so reading is unfolded as a function.
theorem parse?_eq : ∀ source : String, parse? source =
    (language.get.parse source.toList).bind fun tree =>
      if tree.nodes.any (·.isNamed "ERROR") then none else some ⟨source.toList, tree.nodes⟩ := by
  refine congrFun (?_ : @parse? = _)
  delta parse?
  rfl

/-- The nodes of a document stand in its text one behind the other. -/
theorem parse?_laid {source : String} {d : Document} (h : parse? source = some d) :
    d.chars = source.toList ∧
      ∃ w rest, d.chars = [] ++ w ++ rest ∧ Node.LaidAll (.ofChars []) w d.nodes := by
  rw [parse?_eq] at h
  obtain ⟨tree, htree, h⟩ := Option.bind_eq_some_iff.mp h
  obtain ⟨-, -, -, w, rest, hcs, hcovers⟩ := Language.parse_shape tidy_grammar rfl scan_forward htree
  split at h
  · exact absurd h (by simp)
  · obtain rfl := Option.some.inj h
    exact ⟨rfl, w, rest, hcs, Tree.nodes_laid hcovers⟩

/-- The blocks of a document are spread over its text. -/
theorem blocks_spread {source : String} {d : Document} (h : parse? source = some d) :
    Block.Spread source.toList 0 (byteCount source.toList) d.blocks := by
  obtain ⟨hd, w, rest, hcs, hlaid⟩ := parse?_laid h
  have hspread := blocksOfAll_spread d.nodes rest hcs hlaid
  have hend : Block.Spread d.chars (byteCount ([] ++ w)) (byteCount d.chars) [] := by
    simp [Block.Spread, hcs]
  rw [← hd]
  simpa [blocks] using hspread.append hend

end Document

end BaselineAudit.Html
