import BaselineAudit.Proofs.Component.Places

/-!
# Lines of style objects

The text of a style object has a line for each item, and its origin has a place for each line, so the
two have to be in step. Values are folded to one line, and so are names that are put together from
words. A key with a dash in it keeps the newlines that it has.

* `Component.newlines_itemLine_eq`: the newlines in the line of an item are those that its key keeps.
* `Text.move_intercalate`: where one comes to in lines that are joined.
* `Component.objectPassage_locate`: the line that a position in the text of a style object is on.
-/

namespace BaselineAudit

namespace Text

/-! ## Names without newlines -/

theorem ofNat_ne_newline {n : Nat} (h : 10 < n) : Char.ofNat n ≠ '\n' := by
  intro he
  by_cases hn : n.isValidChar
  · rw [Char.ofNat, dif_pos hn] at he
    have hval : n = 10 := congrArg Char.toNat he
    omega
  · rw [Char.ofNat, dif_neg hn] at he
    exact absurd he (by decide)

theorem toLower_eq_newline {c : Char} : c.toLower = '\n' ↔ c = '\n' := by
  unfold Char.toLower
  split
  next h =>
    constructor
    · intro he
      have hval := congrArg Char.toNat he
      simp only [Char.toNat, UInt32.toNat_add, ge_iff_le, UInt32.le_iff_toNat_le] at hval h
      simp at hval h
      omega
    · rintro rfl
      exact absurd h (by decide)
  next => rfl

theorem newlines_toLower (s : String) : newlines s.toLower = newlines s := by
  have hmap : s.toLower = s.map Char.toLower := rfl
  rw [newlines, newlines, hmap, String.toList_map]
  induction s.toList with
  | nil => rfl
  | cons c cs ih => simp only [List.map_cons, List.count_cons, ih, beq_iff_eq, toLower_eq_newline]

/-- The small letters of all capitals are far behind the newline. -/
theorem smallDistances_far :
    smallDistances.all fun r => decide (10 < (r.1 : Int) + r.2.2.2) := by
  decide +kernel

theorem newline_notMem_small {c : Char} (hc : c ≠ '\n') : '\n' ∉ small c := by
  unfold small
  simp only
  split
  · rw [List.mem_singleton]
    exact fun he => hc (toLower_eq_newline.mp he.symm)
  split
  · decide
  split
  next first last step distance hfound =>
    have hfar := Array.all_eq_true_iff_forall_mem.mp smallDistances_far _
      (Array.mem_of_find?_eq_some hfound)
    have hheld := Array.find?_some hfound
    simp only [Run.holds, Bool.and_eq_true, decide_eq_true_eq] at hheld hfar
    rw [List.mem_singleton]
    exact (ofNat_ne_newline (by omega)).symm
  next => simpa using hc.symm

theorem newline_notMem_smallWord {w : List Char} (hw : '\n' ∉ w) : '\n' ∉ smallWord w := by
  fun_induction smallWord w with
  | case1 => exact hw
  | case2 => decide
  | case3 c => exact newline_notMem_small fun hc => hw (by simp [hc])
  | case4 c cs _ ih =>
    rw [List.mem_append]
    rintro (h | h)
    · exact newline_notMem_small (fun hc => hw (by simp [hc])) h
    · exact ih (fun hmem => hw (List.mem_cons_of_mem _ hmem)) h

/-- A name that is put together from words is on one line. -/
theorem newlines_dashed (name : String) : newlines (dashed name) = 0 := by
  rw [dashed, newlines_intercalate]
  · rw [show newlines "-" = 0 by decide, Nat.mul_zero]
  · intro s hs
    obtain ⟨w, hw, rfl⟩ := List.mem_map.mp hs
    obtain ⟨r, hr, hw⟩ := List.mem_flatMap.mp hw
    rw [newlines, String.toList_ofList, List.count_eq_zero]
    refine newline_notMem_smallWord fun hmem => ?_
    rcases mem_of_mem_nameWordsFrom hw hmem with hmem | hmem
    · exact absurd hmem List.not_mem_nil
    · have hgap : (!isAlphanumeric '\n') = false := notGap_of_mem_runsFrom (by simp) r hr _ hmem
      exact absurd hgap (by decide)

/-! ## Lines that are joined -/

/-- Lines that are joined have the newlines between them and their own. -/
theorem newlines_join {lines : List String} (h : lines ≠ []) :
    newlines ("\n".intercalate lines) = lines.length - 1 + (lines.map newlines).sum := by
  induction lines with
  | nil => exact absurd rfl h
  | cons s lines ih =>
    cases lines with
    | nil => simp [String.intercalate_singleton]
    | cons t lines =>
      rw [String.intercalate_cons_cons, newlines_append, newlines_append, ih (List.cons_ne_nil t lines),
        show newlines "\n" = 1 by decide]
      simp only [List.length_cons, List.map_cons, List.sum_cons]
      omega

/-- How many bytes lines take, each with a newline behind it. -/
def linesSize (lines : List String) : Nat := (lines.map fun l => byteCount l.toList + 1).sum

/-- Every position in lines that are joined is on one of them or right behind it. -/
theorem exists_line_of_le {lines : List String} (hne : lines ≠ []) {o : Nat}
    (h : o ≤ byteCount ("\n".intercalate lines).toList) :
    ∃ before l after j, lines = before ++ l :: after ∧ j ≤ byteCount l.toList ∧
      o = linesSize before + j := by
  induction lines generalizing o with
  | nil => exact absurd rfl hne
  | cons s lines ih =>
    by_cases ho : o ≤ byteCount s.toList
    · exact ⟨[], s, lines, o, rfl, ho, by simp [linesSize]⟩
    cases lines with
    | nil => exact absurd (by simpa using h) ho
    | cons t lines =>
      rw [String.intercalate_cons_cons, String.toList_append, String.toList_append, byteCount_append,
        byteCount_append, show byteCount "\n".toList = 1 by decide] at h
      obtain ⟨before, l, after, j, hlines, hj, hsum⟩ :=
        ih (List.cons_ne_nil t lines) (o := o - (byteCount s.toList + 1)) (by omega)
      refine ⟨s :: before, l, after, j, by rw [hlines, List.cons_append], hj, ?_⟩
      simp only [linesSize, List.map_cons, List.sum_cons] at hsum ⊢
      omega

theorem line_move_end (l : Location) (cs : List Char) :
    (l.move cs (byteCount cs)).line = l.line + cs.count '\n' := by
  induction cs generalizing l with
  | nil => rfl
  | cons c cs ih =>
    rw [byteCount_cons, Location.move_cons, ih, Location.step]
    by_cases hc : c = '\n'
    · rw [if_pos hc, hc, List.count_cons_self]
      simp only
      omega
    · rw [if_neg hc, List.count_cons_of_ne hc]

/-- Behind a line and its newline one is at the start of the next line. -/
theorem move_newline (line : Nat) (s : String) :
    Location.move ⟨line, 1⟩ (s.toList ++ ['\n']) (byteCount s.toList + 1) =
      ⟨line + newlines s + 1, 1⟩ := by
  rw [Location.move_append, show (1 : Nat) = '\n'.utf8Size + 0 by rfl, Location.move_cons,
    Location.move_zero, Location.step, if_pos rfl, line_move_end]
  rfl

/-- In lines that are joined one comes to the lines one after the other, and to further ones where a
line has newlines of its own. -/
theorem move_intercalate (line : Nat) (before : List String) (l : String) (after : List String)
    {j : Nat} (hj : j ≤ byteCount l.toList) :
    Location.move ⟨line, 1⟩ ("\n".intercalate (before ++ l :: after)).toList (linesSize before + j) =
      Location.move ⟨line + before.length + (before.map newlines).sum, 1⟩ l.toList j := by
  induction before generalizing line with
  | nil =>
    simp only [linesSize, List.nil_append, List.map_nil, List.sum_nil, List.length_nil, Nat.zero_add,
      Nat.add_zero]
    cases after with
    | nil => rw [String.intercalate_singleton]
    | cons t after =>
      rw [String.intercalate_cons_cons, String.toList_append, String.toList_append, List.append_assoc,
        Location.move_append_left _ _ _ hj]
  | cons s before ih =>
    have hsize : linesSize (s :: before) + j =
        byteCount (s.toList ++ ['\n']) + (linesSize before + j) := by
      have hnewline : '\n'.utf8Size = 1 := rfl
      simp only [linesSize, List.map_cons, List.sum_cons, byteCount_append, byteCount_cons,
        byteCount_nil, hnewline]
      omega
    have hend : byteCount (s.toList ++ ['\n']) = byteCount s.toList + 1 := by
      rw [byteCount_append]
      rfl
    rw [List.cons_append, String.intercalate_cons_of_ne_nil (by simp), String.toList_append,
      String.toList_append, show "\n".toList = ['\n'] by rfl, hsize, Location.move_append, hend,
      move_newline, ih]
    simp only [List.length_cons, List.map_cons, List.sum_cons]
    congr 2
    omega

end Text

namespace Component

open Script Text

/-! ## Items -/

/-- A key keeps its newlines if there is a dash in it. -/
theorem newlines_propertyName (key : String) :
    newlines (propertyName key) = if key.toList.contains '-' then newlines key else 0 := by
  unfold propertyName
  by_cases hdash : key.toList.contains '-' = true
  · rw [if_pos hdash]
    split
    · rfl
    · exact newlines_toLower key
  · have hcustom : ¬(dropLeading ['-', '-'] key.toList).isSome = true := by
      cases hkey : key.toList with
      | nil => simp [dropLeading]
      | cons c cs =>
        rw [hkey] at hdash
        have hc : ¬ '-' = c := fun he => hdash (by simp [← he])
        simp [dropLeading, hc]
    rw [if_neg hdash, if_neg hcustom, if_neg hdash]
    split
    · rw [newlines_append, newlines_dashed]
      decide
    · exact newlines_dashed key

/-- How many newlines the line of an item takes over from its key. -/
def keptNewlines : Tree → Nat
  | .node (.property (some key) _) _ _ => if key.toList.contains '-' then newlines key else 0
  | _ => 0

/-- The newlines in the line of an item are those that its key keeps. -/
theorem newlines_itemLine_eq (b : Bindings) (t : Tree) :
    newlines (itemLine b t) = keptNewlines t := by
  unfold itemLine
  split
  next key _ _ parts =>
    rw [keptNewlines, ← newlines_propertyName]
    split
    next value _ =>
      unfold styleLine
      split
      · simp only [newlines_append, newlines_singleLine, show newlines ": " = 0 by decide,
          show newlines ";" = 0 by decide, Nat.add_zero]
      · exact newlines_comment _
    next => exact newlines_comment _
  next => rw [newlines_comment]; rfl
  next hnamed hcomputed =>
    rw [newlines_comment]
    unfold keptNewlines
    split
    next => exact absurd rfl (hnamed _ _ _ _)
    next => decide

theorem newlines_itemLines (b : Bindings) (items : List Tree) :
    (items.map (itemLine b)).map newlines = items.map keptNewlines := by
  rw [List.map_map]
  exact List.map_congr_left fun t _ => newlines_itemLine_eq b t

/-! ## Objects -/

section

variable (x : Context)

/-- The line of a position is that of its item, counted with the newlines that keys have kept. -/
theorem objectPassage_locate (before : List Tree) (t : Tree) (after : List Tree) {j : Nat}
    (hj : j ≤ byteCount (itemLine x.bindings t).toList) :
    (LineIndex.ofText (x.objectPassage (before ++ t :: after)).text).locate
        (linesSize (before.map (itemLine x.bindings)) + j) =
      Location.move ⟨1 + before.length + (before.map keptNewlines).sum, 1⟩
        (itemLine x.bindings t).toList j := by
  rw [LineIndex.locate_eq, Context.objectPassage, List.map_append, List.map_cons,
    move_intercalate _ _ _ _ hj, newlines_itemLines, List.length_map]

/-- Lines count on from the line that a text starts on. -/
theorem line_move_from (line : Nat) (cs : List Char) (j : Nat) :
    (Location.move ⟨line + 1, 1⟩ cs j).line = line + (Location.move ⟨1, 1⟩ cs j).line := by
  rw [← Origin.map_move, Origin.map]
  split
  next h => rw [h]
  next => simp only; omega

/-- A text without newlines is on one line. -/
theorem line_move_of_newlines {s : String} (h : newlines s = 0) (l : Location) (j : Nat) :
    (l.move s.toList j).line = l.line := by
  have hle := l.line_move_le s.toList j
  have hge := (l.le_move s.toList j).1
  rw [newlines] at h
  omega

/-- As long as no key has kept a newline, a position has the place of its item. -/
theorem objectPassage_place {before : List Tree} {t : Tree} (after : List Tree) {j : Nat}
    (hj : j ≤ byteCount (itemLine x.bindings t).toList)
    (hkeys : ∀ s ∈ before ++ [t], keptNewlines s = 0) :
    let p := x.objectPassage (before ++ t :: after)
    let l := (LineIndex.ofText p.text).locate (linesSize (before.map (itemLine x.bindings)) + j)
    l.line = before.length + 1 ∧ p.origin.map l = x.locate t.span.start := by
  intro p l
  have hbefore : (before.map keptNewlines).sum = 0 := by
    rw [List.sum_eq_zero]
    intro n hn
    obtain ⟨s, hs, rfl⟩ := List.mem_map.mp hn
    exact hkeys s (List.mem_append_left _ hs)
  have hitem : newlines (itemLine x.bindings t) = 0 := by
    rw [newlines_itemLine_eq]
    exact hkeys t (by simp)
  have hline : l.line = before.length + 1 := by
    simp only [l, p]
    rw [objectPassage_locate x before t after hj, line_move_of_newlines hitem, hbefore]
    simp only
    omega
  refine ⟨hline, ?_⟩
  show (Origin.lines ((before ++ t :: after).map fun s => x.locate s.span.start)).map l = _
  rw [Origin.map, hline, Nat.add_sub_cancel, List.getElem?_map, List.getElem?_append_right
    (Nat.le_refl _), Nat.sub_self]
  rfl

/-- The text of a style object has a place for each item. It has a line for each item and no other ones
exactly if no key with a dash has newlines in it. Up to the first such key every position is on the line
of its item and has its place; behind it positions are on later lines, with the places of other items
or none. -/
theorem objectPassage_in_step (items : List Tree) (hne : items ≠ []) :
    let p := x.objectPassage items
    let line := itemLine x.bindings
    (∃ anchors, p.origin = .lines anchors ∧ anchors.length = items.length) ∧
      newlines p.text = items.length - 1 + (items.map keptNewlines).sum ∧
      (newlines p.text = items.length - 1 ↔ ∀ t ∈ items, keptNewlines t = 0) ∧
      ∀ o ≤ byteCount p.text.toList, ∃ before t after j, items = before ++ t :: after ∧
        j ≤ byteCount (line t).toList ∧ o = linesSize (before.map line) + j ∧
        let l := (LineIndex.ofText p.text).locate o
        l.line = before.length + (before.map keptNewlines).sum +
            ((LineIndex.ofText (line t)).locate j).line ∧
          p.origin.map l = ((items[l.line - 1]?).map fun s => x.locate s.span.start).getD l ∧
          ((∀ s ∈ before ++ [t], keptNewlines s = 0) →
            l.line = before.length + 1 ∧ p.origin.map l = x.locate t.span.start) := by
  intro p line
  have hcount : newlines p.text = items.length - 1 + (items.map keptNewlines).sum := by
    simp only [p, Context.objectPassage]
    rw [newlines_join (by simpa using hne), newlines_itemLines, List.length_map]
  refine ⟨⟨_, rfl, List.length_map _⟩, hcount, ?_, ?_⟩
  · rw [hcount, Nat.add_eq_left, List.sum_eq_zero_iff]
    simp
  · intro o ho
    obtain ⟨linesBefore, l, linesAfter, j, hlines, hj, rfl⟩ :=
      exists_line_of_le (by simpa using hne) ho
    obtain ⟨before, rest, rfl, rfl, hrest⟩ := List.map_eq_append_iff.mp hlines
    obtain ⟨t, after, rfl, rfl, rfl⟩ := List.map_eq_cons_iff.mp hrest
    refine ⟨before, t, after, j, rfl, hj, rfl, ?_, ?_, fun hkeys => ?_⟩
    · simp only [p, line]
      rw [objectPassage_locate x before t after hj, LineIndex.locate_eq, ← line_move_from]
      congr 3
      omega
    · show (Origin.lines _).map _ = _
      rw [Origin.map, List.getElem?_map]
    · exact objectPassage_place x after hj hkeys

end

/-- The lines of an object with a property and a spread in it. -/
theorem objectPassage_in_step_spread :
    let gap : Tree := .node (.property (some "gap") false) ⟨13, 23⟩
      [.node (.string "gap") ⟨13, 16⟩ [], .node (.string "1\npx") ⟨18, 23⟩ []]
    let spread : Tree := .node .spread ⟨25, 32⟩ [.node (.reference "rest") ⟨28, 32⟩ []]
    let x : Context := ⟨[], .ofText "", []⟩
    (x.objectPassage [gap, spread]).text = "gap: 1 px;\n/* spread */" ∧
      newlines (x.objectPassage [gap, spread]).text = 1 := by
  intro gap spread x
  refine ⟨by decide +kernel, ?_⟩
  have hstep := objectPassage_in_step x [gap, spread] (List.cons_ne_nil _ _)
  exact hstep.2.2.1.mpr (by decide +kernel)

/-- A key with a dash and a newline in it moves what follows to a line without a place: `gap` stands at
1:26 in the source and is found at 3:1 of the generated text. -/
theorem objectPassage_out_of_step :
    let split : Tree := .node (.property (some "a-\nb") false) ⟨13, 23⟩
      [.node (.string "a-\nb") ⟨13, 20⟩ [], .node (.reference "x") ⟨22, 23⟩ []]
    let gap : Tree := .node (.property (some "gap") false) ⟨25, 35⟩
      [.node (.string "gap") ⟨25, 28⟩ [], .node (.string "1px") ⟨30, 35⟩ []]
    let x : Context := ⟨[], .ofText "<div style=\x7b\x7b\"a-\\nb\": x, gap: \"1px\"\x7d\x7d />", []⟩
    let p := x.objectPassage [split, gap]
    p.text = "/* a-\nb */\ngap: 1px;" ∧ newlines p.text = 2 ∧ x.locate gap.span.start = ⟨1, 26⟩ ∧
      p.origin.map ((LineIndex.ofText p.text).locate 11) = ⟨3, 1⟩ := by
  decide +kernel

end Component

end BaselineAudit
