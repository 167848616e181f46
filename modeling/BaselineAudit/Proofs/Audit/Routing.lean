import BaselineAudit.Proofs.Audit.Acceptance
import BaselineAudit.Proofs.Html.Blocks

/-!
# The routes of a document

A document takes the route for style sheets and scripts if it holds one of two texts, `<style` and
`<script`. Elements are read off the document by its grammar, which also knows `<STYLE>` and
`< script>`.

* `Html.Document.text_of_mem_allNodes`: the text of a node stands in the document as it is.
* `Route.hasBlocks_of_isSpelled`: a style or script element that is spelled in the usual way decides
  the route.
* `Html.Document.exists_holder`: every block is that of a style or script element.
* `Checker.analyze_html_eq_mixed`: the route makes no difference to the issues, unless such an
  element is spelled otherwise.
-/

namespace BaselineAudit

/-! ## Texts in texts -/

namespace Text

theorem dropLeading_append (needle rest : List Char) :
    dropLeading needle (needle ++ rest) = some rest := by
  induction needle with
  | nil => rfl
  | cons c needle ih => simp [dropLeading, ih]

theorem occursIn_append (front needle back : List Char) :
    occursIn needle (front ++ (needle ++ back)) = true := by
  induction front with
  | nil =>
    cases h : needle ++ back with
    | nil => simp [occursIn, (List.append_eq_nil_iff.mp h).1]
    | cons c cs =>
      have hdrop : (dropLeading needle (c :: cs)).isSome = true := by
        rw [← h, dropLeading_append, Option.isSome_some]
      rw [List.nil_append, occursIn, hdrop, Bool.true_or]
  | cons c front ih => rw [List.cons_append, occursIn, ih, Bool.or_true]

/-- A text stands in another one if it starts a part of it. -/
theorem contains_of_isPrefix {hay needle : String} {front part back : List Char}
    (hhay : hay.toList = front ++ part ++ back) (hpart : needle.toList <+: part) :
    contains hay needle = true := by
  obtain ⟨rest, rfl⟩ := hpart
  rw [contains, hhay, List.append_assoc, List.append_assoc]
  exact occursIn_append front _ _

end Text

/-! ## Nodes of a document -/

namespace Parsing.Node

mutual

/-- A node with the nodes in it. -/
def withInner : Node → List Node
  | ⟨label, start, size, hasError, children⟩ =>
    ⟨label, start, size, hasError, children⟩ :: withInnerAll children

/-- Nodes with the nodes in them. -/
def withInnerAll : List Node → List Node
  | [] => []
  | n :: rest => withInner n ++ withInnerAll rest

end

end Parsing.Node

namespace Html.Document

open Parsing

/-- All nodes of a document. -/
def allNodes (d : Document) : List Node := Node.withInnerAll d.nodes

/-- An element that holds a style sheet or a script. -/
def isHolder (n : Node) : Bool := (blockKind? n.label).isSome

/-- The text of an element starts with its name in small letters, right behind the bracket. -/
def IsSpelled (d : Document) (n : Node) : Prop :=
  "<style".toList <+: (n.text d.chars).toList ∨ "<script".toList <+: (n.text d.chars).toList

mutual

theorem text_of_mem_withInner {d : Document} : (n : Node) → {front w : List Char} →
    (back : List Char) → d.chars = front ++ w ++ back → n.Laid (.ofChars front) w →
    ∀ m ∈ n.withInner, ∃ a b, d.chars = a ++ (m.text d.chars).toList ++ b
  | ⟨label, start, size, hasError, children⟩, front, w, back, hd, hn => by
    intro m hm
    rw [Node.withInner, List.mem_cons] at hm
    rcases hm with rfl | hm
    · obtain ⟨u, text, rfl, -, htext⟩ := text_of_laid back hd hn
      exact ⟨front ++ u, back, by rw [htext, hd]; simp⟩
    · exact text_of_mem_withInnerAll children back hd (Node.laid_iff.mp hn).2 m hm

theorem text_of_mem_withInnerAll {d : Document} : (ns : List Node) → {front w : List Char} →
    (back : List Char) → d.chars = front ++ w ++ back → Node.LaidAll (.ofChars front) w ns →
    ∀ m ∈ Node.withInnerAll ns, ∃ a b, d.chars = a ++ (m.text d.chars).toList ++ b
  | [], front, w, back, hd, hn => by
    intro m hm
    rw [Node.withInnerAll] at hm
    exact absurd hm List.not_mem_nil
  | n :: ns, front, w, back, hd, hn => by
    intro m hm
    obtain ⟨u, v, rfl, hu, hv⟩ := Node.laidAll_cons.mp hn
    rw [← Extent.ofChars_append] at hv
    rw [Node.withInnerAll, List.mem_append] at hm
    rcases hm with hm | hm
    · exact text_of_mem_withInner n (v ++ back) (by rw [hd]; simp) hu m hm
    · exact text_of_mem_withInnerAll ns back (by rw [hd]; simp) hv m hm

end

/-- The text of a node stands in the document as it is. -/
theorem text_of_mem_allNodes {source : String} {d : Document} (h : parse? source = some d) :
    ∀ n ∈ d.allNodes, ∃ a b, source.toList = a ++ (n.text d.chars).toList ++ b := by
  obtain ⟨hd, w, rest, hcs, hlaid⟩ := parse?_laid h
  rw [← hd]
  exact text_of_mem_withInnerAll d.nodes rest hcs hlaid

section

variable (d : Document) (locate : Nat → Location)

mutual

/-- A block of a node is that of an element in it. -/
theorem exists_holder_of_mem_blocksOf : (n : Node) → {b : Block} → b ∈ d.blocksOf locate n →
    ∃ m ∈ n.withInner, isHolder m = true ∧ b ∈ d.blocksOf locate m
  | ⟨label, start, size, hasError, children⟩, b, hb => by
    cases hkind : blockKind? label with
    | some kind => exact ⟨_, by simp [Node.withInner], by simp [isHolder, hkind], hb⟩
    | none =>
      rw [blocksOf, hkind] at hb
      split at hb
      · exact absurd hb List.not_mem_nil
      · obtain ⟨m, hm, h⟩ := exists_holder_of_mem_blocksOfAll children hb
        exact ⟨m, by rw [Node.withInner]; exact List.mem_cons_of_mem _ hm, h⟩

theorem exists_holder_of_mem_blocksOfAll : (ns : List Node) → {b : Block} →
    b ∈ d.blocksOfAll locate ns →
    ∃ m ∈ Node.withInnerAll ns, isHolder m = true ∧ b ∈ d.blocksOf locate m
  | [], b, hb => by
    rw [blocksOfAll] at hb
    exact absurd hb List.not_mem_nil
  | n :: ns, b, hb => by
    rw [blocksOfAll, List.mem_append] at hb
    rw [Node.withInnerAll]
    rcases hb with hb | hb
    · obtain ⟨m, hm, h⟩ := exists_holder_of_mem_blocksOf n hb
      exact ⟨m, List.mem_append_left _ hm, h⟩
    · obtain ⟨m, hm, h⟩ := exists_holder_of_mem_blocksOfAll ns hb
      exact ⟨m, List.mem_append_right _ hm, h⟩

end

end

/-- The blocks in a node of a document. -/
def blocksIn (d : Document) (n : Node) : List Block :=
  d.blocksOf (LineIndex.ofText (String.ofList d.chars)).locate n

/-- A document with a block has an element that holds one. -/
theorem exists_holder {d : Document} (h : d.blocks ≠ []) :
    ∃ n ∈ d.allNodes, isHolder n = true ∧ d.blocksIn n ≠ [] := by
  obtain ⟨b, hb⟩ := List.exists_mem_of_ne_nil _ h
  obtain ⟨n, hn, hholder, hb⟩ := exists_holder_of_mem_blocksOfAll d _ d.nodes hb
  exact ⟨n, hn, hholder, List.ne_nil_of_mem hb⟩

end Html.Document

/-! ## Routes -/

/-- An element that is spelled in the usual way shows in the text. -/
theorem Route.hasBlocks_of_isSpelled {code : String} {d : Html.Document}
    (h : Html.Document.parse? code = some d) {n : Parsing.Node} (hn : n ∈ d.allNodes)
    (hs : d.IsSpelled n) : hasBlocks code = true := by
  obtain ⟨a, b, hcode⟩ := Html.Document.text_of_mem_allNodes h n hn
  rw [hasBlocks, Bool.or_eq_true]
  exact hs.imp (Text.contains_of_isPrefix hcode) (Text.contains_of_isPrefix hcode)

namespace Checker

theorem analyze_of_steady {c : Checker} (hc : c.Steady) (code tag : String) :
    c.analyze code tag = c.reportOf (Route.select code tag).language
      ((Route.select code tag).parts code) := by
  rw [analyze_eq, run_eq, hc.breaksOn]
  rfl

/-- Without blocks, the style sheets and scripts add nothing to the report. -/
theorem reportOf_mixed_of_blocks_eq_nil (c : Checker) {code : String}
    (h : ∀ d, Html.Document.parse? code = some d → d.blocks = []) :
    (c.reportOf .html (Route.html.parts code)).issues =
      (c.reportOf .mixed (Route.mixed.parts code)).issues ∧
    (c.reportOf .html (Route.html.parts code)).summary.checked =
      (c.reportOf .mixed (Route.mixed.parts code)).summary.checked := by
  simp only [Route.parts]
  cases hd : Html.Document.parse? code with
  | none => exact ⟨rfl, rfl⟩
  | some d =>
    have hstyles : d.styleUsages = [] := by simp [Html.Document.styleUsages, h d hd]
    have hscripts : d.scriptUsages = [] := by simp [Html.Document.scriptUsages, h d hd]
    simp only [Option.elim_some, hstyles, hscripts]
    have hnone : c.issuesOf [] = [] := rfl
    simp [reportOf, Report.ofIssues, hnone]

/-- A document has the same issues and the same number of usages whichever route it takes, and on the
plain route it has no style sheet and no script, except for one case: the text shows neither `<style`
nor `<script`, and an element that holds one is spelled otherwise. -/
theorem analyze_html_eq_mixed (c : Checker) (hc : c.Steady) (code : String) :
    ∃ r, c.auditMixed code = some r ∧
      (((c.analyze code "html").issues = r.issues ∧
        (c.analyze code "html").summary.checked = r.summary.checked ∧
        (Route.select code "html" = .html →
          ∀ d, Html.Document.parse? code = some d → d.blocks = [])) ∨
      (Route.select code "html" = .html ∧ ∃ d, Html.Document.parse? code = some d ∧
        ∃ n ∈ d.allNodes, Html.Document.isHolder n = true ∧ d.blocksIn n ≠ [] ∧
          ¬d.IsSpelled n)) := by
  have hmixed : c.auditMixed code = some (c.reportOf .mixed (Route.mixed.parts code)) :=
    report?_eq hc code (.direct .mixed)
  refine ⟨_, hmixed, ?_⟩
  rw [analyze_of_steady hc]
  have hselect : Route.select code "html" = if Route.hasBlocks code then .mixed else .html := rfl
  cases hblocks : Route.hasBlocks code with
  | true =>
    rw [hblocks, if_pos rfl] at hselect
    rw [hselect]
    exact .inl ⟨rfl, rfl, fun h => absurd h (by simp)⟩
  | false =>
    rw [hblocks, if_neg Bool.false_ne_true] at hselect
    rw [hselect]
    by_cases hnone : ∀ d, Html.Document.parse? code = some d → d.blocks = []
    · obtain ⟨hissues, hchecked⟩ := c.reportOf_mixed_of_blocks_eq_nil hnone
      exact .inl ⟨hissues, hchecked, fun _ => hnone⟩
    · obtain ⟨d, hd⟩ := not_forall.mp hnone
      obtain ⟨hparse, hsome⟩ := Classical.not_imp.mp hd
      obtain ⟨n, hn, hholder, hin⟩ := Html.Document.exists_holder hsome
      refine .inr ⟨rfl, d, hparse, n, hn, hholder, hin, fun hs => ?_⟩
      rw [Route.hasBlocks_of_isSpelled hparse hn hs] at hblocks
      exact absurd hblocks (by simp)

/-- A document with a style sheet that is spelled in the usual way. -/
theorem analyze_html_eq_mixed_style :
    ∃ r, (unaware .low).auditMixed "<style>a \x7b gap: 1px \x7d</style>" = some r ∧
      ((unaware .low).analyze "<style>a \x7b gap: 1px \x7d</style>" "html").issues = r.issues ∧
      ((unaware .low).analyze "<style>a \x7b gap: 1px \x7d</style>" "html").summary.checked =
        r.summary.checked := by
  obtain ⟨r, hr, h⟩ := analyze_html_eq_mixed (unaware .low) (unaware_steady .low)
    "<style>a \x7b gap: 1px \x7d</style>"
  have hselect : Route.select "<style>a \x7b gap: 1px \x7d</style>" "html" ≠ .html := by decide +kernel
  rcases h with ⟨hissues, hchecked, -⟩ | ⟨hhtml, -⟩
  · exact ⟨r, hr, hissues, hchecked⟩
  · exact absurd hhtml hselect

end Checker

end BaselineAudit
