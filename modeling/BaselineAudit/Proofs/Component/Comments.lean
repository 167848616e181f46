import BaselineAudit.Proofs.Component.Places
import BaselineAudit.Proofs.Component.Suppression
import BaselineAudit.Proofs.Css.Comments

/-!
# Items of style objects without a known value

Such an item has a comment for its line. The comment names the property, and keys may hold any text.

* `Component.closes_comment`: a comment has one end, whatever stands in it.
* `Component.itemLine_of_unknown`: the line of an item without a known value is a comment.
* `Component.unknown_value_in_comment`: nothing of it comes to stand outside of the comment.
-/

namespace BaselineAudit

namespace Text

/-- Lines that are joined: those in front of a line end with a newline, those behind it start with
one. -/
theorem toList_join (before : List String) (l : String) (after : List String) :
    ("\n".intercalate (before ++ l :: after)).toList =
      (before.flatMap fun s => s.toList ++ ['\n']) ++ l.toList ++
        after.flatMap fun s => '\n' :: s.toList := by
  induction before generalizing l with
  | nil =>
    induction after generalizing l with
    | nil => simp [String.intercalate_singleton]
    | cons s after ih =>
      rw [List.nil_append, String.intercalate_cons_cons]
      simpa using ih s
  | cons s before ih =>
    rw [List.cons_append, String.intercalate_cons_of_ne_nil (by simp)]
    simp [ih]

end Text

namespace Component

open Script Css Text Parsing

/-! ## Comments -/

theorem head?_withoutEnds (cs : List Char) : (withoutEnds cs).head? = cs.head? := by
  fun_cases withoutEnds cs <;> rfl

/-- No end of a comment is left. -/
theorem withoutEnds_spec (cs : List Char) : ¬commentEnd <:+: withoutEnds cs := by
  fun_induction withoutEnds cs with
  | case1 cs ih => simpa [commentEnd_infix_cons] using ih
  | case2 c cs hne ih =>
    rw [commentEnd_infix_cons, head?_withoutEnds]
    rintro (⟨rfl, hhead⟩ | h)
    · cases cs with
      | nil => exact absurd hhead (by simp)
      | cons d cs => exact hne cs rfl (by rw [Option.some.inj hhead])
    · exact ih h
  | case3 => decide

theorem toList_comment (text : String) : (comment text).toList =
    '/' :: '*' :: ' ' :: (withoutEnds text.toList ++ [' ', '*', '/']) := by
  simp [comment]

/-- No end of a comment is left in front of its own one. -/
theorem no_end_within (cs : List Char) : ¬commentEnd <:+: ' ' :: withoutEnds cs ++ [' '] := by
  rw [List.infix_concat_iff, commentEnd_infix_cons]
  rintro (⟨front, h⟩ | ⟨h, -⟩ | h)
  · have hlast := congrArg List.getLast? h
    simp [commentEnd, List.getLast?_cons] at hlast
  · exact absurd h (by decide)
  · exact withoutEnds_spec cs h

theorem isComment_comment (text : String) : IsComment (comment text).toList :=
  ⟨_, toList_comment text, _, by simp [commentEnd], no_end_within text.toList⟩

/-- A comment has one end, whatever stands in it. -/
theorem closes_comment (text : String) : Closes (comment text).toList := by
  obtain ⟨body, hbody, hcloses⟩ := isComment_comment text
  have hhead : body.head? = some ' ' := by
    rw [toList_comment] at hbody
    rw [← (List.cons.inj (List.cons.inj hbody).2).2, List.head?_cons]
  rw [hbody, closes_cons_iff, closes_cons_iff]
  exact .inr ⟨by simp, .inr ⟨by simp [hhead], hcloses⟩⟩

/-! ## Items without a known value -/

/-- The value of an item of a style object, if the item has a key and its value is known. -/
def itemValue? (b : Bindings) : Tree → Option String
  | .node (.property (some _) _) _ parts => parts.getLast?.bind (styleValue? b)
  | _ => none

/-- What the comment for an item says. -/
def itemNote : Tree → String
  | .node (.property (some key) _) _ _ => propertyName key
  | .node (.property none _) _ _ => "computed key"
  | _ => "spread"

/-- The line of an item without a known value is a comment. -/
theorem itemLine_of_unknown {b : Bindings} {t : Tree} (h : itemValue? b t = none) :
    itemLine b t = comment (itemNote t) := by
  unfold itemLine
  split
  next key _ _ parts =>
    rw [itemNote]
    rw [itemValue?] at h
    split
    next value hvalue =>
      rw [hvalue, Option.bind_some] at h
      rw [styleLine, h]
    next => rfl
  next => rfl
  next hnamed hcomputed =>
    unfold itemNote
    split
    next => exact absurd rfl (hnamed _ _ _ _)
    next => exact absurd rfl (hcomputed _ _ _)
    next => rfl

/-! ## Style sheets of style objects -/

section

variable (x : Context) (before after : List Tree)

/-- What stands in front of the line of an item in the style sheet of its object. -/
def sheetFront : List Char :=
  Form.declarations.opening.toList ++
    before.flatMap fun s => (itemLine x.bindings s).toList ++ ['\n']

/-- What stands behind the line of an item in the style sheet of its object. -/
def sheetBack : List Char :=
  (after.flatMap fun s => '\n' :: (itemLine x.bindings s).toList) ++ Form.declarations.closing.toList

/-- The style sheet of an object has the line of each item. -/
theorem exists_snippet (t : Tree) :
    ∃ s, (x.objectPassage (before ++ t :: after)).snippet? .declarations = some s ∧
      s.source.toList =
        sheetFront x before ++ (itemLine x.bindings t).toList ++ sheetBack x after := by
  have hblank : allBlank (x.objectPassage (before ++ t :: after)).text = false := by
    rw [Context.objectPassage, allBlank_lines, List.all_eq_false]
    exact ⟨itemLine x.bindings t, List.mem_map_of_mem (by simp), by simp [allBlank_itemLine]⟩
  refine ⟨_, by rw [Passage.snippet?, hblank]; rfl, ?_⟩
  simp only [Snippet.source, Context.objectPassage, String.toList_append, List.map_append,
    List.map_cons, toList_join, sheetFront, sheetBack, List.flatMap_map, List.append_assoc]

/-- The line of an item stands behind the opening of the style sheet or a newline. -/
theorem exists_sheetFront :
    ∃ front c, sheetFront x before = front ++ [c] ∧ c ≠ '*' ∧ c ≠ '/' := by
  rcases before.eq_nil_or_concat with rfl | ⟨before, s, rfl⟩
  · exact ⟨['*'], '\x7b', by simp [sheetFront, Form.opening], by decide, by decide⟩
  · refine ⟨sheetFront x before ++ (itemLine x.bindings s).toList, '\n', ?_, by decide, by decide⟩
    simp [sheetFront]

/-- A newline stands behind the line of an item. -/
theorem exists_sheetBack : ∃ rest, sheetBack x after = '\n' :: rest := by
  unfold sheetBack
  cases after with
  | nil => exact ⟨_, rfl⟩
  | cons s after => exact ⟨_, rfl⟩

end

/-- A comment opens with `/*` and closes with a `*/` behind that, which stands nowhere else in it. An
item without a known value has such a comment for its line, whatever its key. So in the style sheet of
the object the line adds nothing to the text outside of comments. Where comments are looked for, the
line is the next token as a whole: a comment, or the content of a string that was opened in front of
it. -/
theorem unknown_value_in_comment :
    (∀ text : String, let cs := (comment text).toList
      ['/', '*'] <+: cs ∧ ['*', '/'] <:+ cs.drop 2 ∧
        ∀ i, ['*', '/'] <+: cs.drop i ↔ i + 2 = cs.length) ∧
    ∀ (x : Context) (before after : List Tree) (t : Tree), itemValue? x.bindings t = none →
      let line := (itemLine x.bindings t).toList
      let front := sheetFront x before
      let back := sheetBack x after
      let p : Place := ⟨.ofChars front, line ++ back⟩
      itemLine x.bindings t = comment (itemNote t) ∧
      (∃ s, (x.objectPassage (before ++ t :: after)).snippet? .declarations = some s ∧
        s.source.toList = front ++ line ++ back ∧
        outside s.source.toList = outside front ++ outside back) ∧
      (∀ memory wanted, scan memory wanted p = none) ∧
      ∀ mode : LexMode, mode.looksFor grammar.productions "comment" = true →
        let r := language.get.lexToken mode p
        ∃ n, r.found = some (n, ⟨.ofChars (front ++ line), back⟩) ∧ r.start = p ∧
          (Tree.labelOf grammar.productions (.symbol n) = some ⟨"comment", true⟩ ∨
            Tree.labelOf grammar.productions (.symbol n) = some ⟨"string_content", true⟩) := by
  refine ⟨fun text => ?_, fun x before after t hunknown => ?_⟩
  · obtain ⟨body, hbody, front, hfront, -⟩ := isComment_comment text
    refine ⟨⟨body, hbody.symm⟩, ⟨front, ?_⟩, (closes_comment text).end_iff⟩
    rw [hbody, hfront]
    rfl
  · intro line front back p
    have hline := itemLine_of_unknown hunknown
    have hchars : line = (comment (itemNote t)).toList := congrArg String.toList hline
    have hcomment : IsComment line := hchars ▸ isComment_comment _
    have hcloses : Closes line := hchars ▸ closes_comment _
    refine ⟨hline, ?_, fun memory wanted => scan_comment hcomment memory wanted _ _,
      fun mode hmode => ?_⟩
    · obtain ⟨s, hs, hsource⟩ := exists_snippet x before after t
      obtain ⟨first, c, hfirst, hstar, hslash⟩ := exists_sheetFront x before
      refine ⟨s, hs, hsource, ?_⟩
      rw [hsource, show front = _ from hfirst, hfirst]
      exact outside_comment hstar hslash first hcomment hcloses back
    · obtain ⟨rest, hrest⟩ := exists_sheetBack x after
      have h := lexToken_comment hmode hcomment (.ofChars front) rest
      rw [Extent.ofChars_append]
      rw [← show back = _ from hrest] at h
      exact h

/-- A key with the end of a comment and a declaration in it. All tokens are looked for. -/
theorem unknown_value_in_comment_key :
    let gap : Tree := .node (.property (some "gap") false) ⟨13, 23⟩
      [.node (.string "gap") ⟨13, 16⟩ [], .node (.string "1px") ⟨18, 23⟩ []]
    let key : Tree := .node (.property (some "a-*/float: left/*") false) ⟨25, 47⟩
      [.node (.string "a-*/float: left/*") ⟨25, 44⟩ [], .node (.reference "x") ⟨46, 47⟩ []]
    let color : Tree := .node (.property (some "color") false) ⟨49, 61⟩
      [.node (.string "color") ⟨49, 54⟩ [], .node (.string "red") ⟨56, 61⟩ []]
    let x : Context := ⟨[], .ofText "", []⟩
    let front := "*\x7bgap: 1px;\n".toList
    let line := "/* a-* /float: left/* */".toList
    let back := "\ncolor: red;\n\x7d".toList
    let mode : LexMode := ⟨2 ^ 68 - 1, false⟩
    (∃ s, (x.objectPassage [gap, key, color]).snippet? .declarations = some s ∧
      s.source.toList = front ++ line ++ back ∧
      outside s.source.toList = "*\x7bgap: 1px;\n\ncolor: red;\n\x7d".toList) ∧
    ∃ n, (language.get.lexToken mode ⟨.ofChars front, line ++ back⟩).found =
      some (n, ⟨.ofChars (front ++ line), back⟩) := by
  intro gap key color x front line back mode
  have hkey : itemValue? x.bindings key = none := rfl
  have hfront : sheetFront x [gap] = front := by decide
  have hline : (itemLine x.bindings key).toList = line := by decide +kernel
  have hback : sheetBack x [color] = back := by decide
  have h := unknown_value_in_comment.2 x [gap] [color] key hkey
  rw [hfront, hline, hback] at h
  obtain ⟨-, ⟨s, hs, hsource, houtside⟩, -, hlex⟩ := h
  obtain ⟨n, hfound, -⟩ := hlex mode (LexMode.looksFor_iff.mpr ⟨66, _, by decide, rfl, rfl⟩)
  exact ⟨⟨s, hs, hsource, houtside.trans (by decide)⟩, n, hfound⟩

end Component

end BaselineAudit
