import BaselineAudit.Proofs.Audit.Acceptance
import BaselineAudit.Proofs.Css.Snippets
import BaselineAudit.Proofs.Html.Blocks
import BaselineAudit.Proofs.Script.Statements

/-!
# Documents with style sheets and scripts

The style sheets of a document share one collector, and so do its scripts. This does not show: the
report on the document is made of the reports on its parts, with their issues moved to where the parts
stand.

* `Css.Snippet.usages_verbatim`, `Script.usages?_verbatim`: what a block uses is what its text uses,
  moved to its place.
* `Html.Block.Spread.spot_ne`: no two blocks have a usage at the same place.
* `Checker.issuesOf_blocks`: so the issues of all blocks are those of each block.
* `Checker.auditMixed_eq_parts`: the report on a document is made of the reports on its parts.
-/

namespace BaselineAudit

/-! ## Moving to the place of a block -/

/-- A usage in a text that stands in a document from a location on. -/
def Usage.movedTo (start : Location) (u : Usage) : Usage :=
  { u with location := u.location.map (Origin.verbatim start).map }

/-- An issue of a text that stands in a document from a location on. -/
def Issue.movedTo (start : Location) (i : Issue) : Issue :=
  { i with location := i.location.map (Origin.verbatim start).map }

@[simp] theorem Usage.movedTo_key (start : Location) (u : Usage) : (u.movedTo start).key = u.key := rfl

/-- Different places in a text are different places in a document that it stands in. -/
theorem Usage.spot_movedTo_inj {start : Location} {cs : List Char} {u v : Usage} (hu : u.Starts cs)
    (hv : v.Starts cs) : (u.movedTo start).spot = (v.movedTo start).spot ↔ u.spot = v.spot := by
  obtain ⟨o, -, ho⟩ := hu
  obtain ⟨o', -, ho'⟩ := hv
  simp only [Usage.spot, Usage.movedTo, ho, ho', Option.map_some, Origin.map_move, Prod.mk.injEq,
    Option.some.injEq]
  refine and_congr_right fun _ => ⟨fun h => ?_, fun h => ?_⟩
  · rw [Location.move_injective _ _ h]
  · rw [Location.move_injective _ _ h]

/-! ## Style sheets -/

namespace Css

theorem Declaration.usages_relocate (start : Location) (d : Declaration) :
    (d.relocate (Origin.verbatim start).map).usages = d.usages.map (Usage.movedTo start) := by
  simp [Declaration.usages, Declaration.relocate, Usage.movedTo, Usage.ofProperty,
    Usage.ofPropertyValue]

/-- What a style sheet in a document uses is what its text uses, moved to its place. -/
theorem Snippet.usages_verbatim (text : String) (form : Form) (start : Location) :
    usages ⟨text, form, .verbatim start⟩ =
      (usages ⟨text, form, .whole⟩).map (Usage.movedTo start) := by
  rw [usages, declarations_relocate, List.flatMap_map, usages, List.map_flatMap]
  exact congrArg (List.flatMap · _) (funext (Declaration.usages_relocate start))

end Css

/-! ## Scripts -/

namespace Script

theorem usage?_comp (f : Location → Location) (locate : Nat → Location) (t : Tree) :
    usage? (fun o => f (locate o)) t =
      (usage? locate t).map fun u => { u with location := u.location.map f } := by
  unfold usage?
  split <;> rfl

/-- What a script in a document uses is what its text uses, moved to its place. -/
theorem usages?_verbatim (dialect : Dialect) (start : Location) (source : String) :
    usages? dialect (.verbatim start) source =
      (usages? dialect .whole source).map (List.map (Usage.movedTo start)) := by
  unfold usages?
  cases parse? dialect source with
  | none => rfl
  | some tree =>
    refine congrArg some ?_
    have hnode := funext (usage?_comp (Origin.verbatim start).map (LineIndex.ofText source).locate)
    simp only [usagesOf_eq_visited, isSuppressed, List.any_nil, Bool.false_eq_true, if_false, hnode,
      List.map_filterMap]
    rfl

end Script

/-! ## Blocks -/

namespace Html.Block

/-- Where a usage in a block stands in the document. -/
theorem location_movedTo {cs front back : List Char} {b : Block}
    (hcs : cs = front ++ b.text.toList ++ back)
    (hstart : b.start = Location.move ⟨1, 1⟩ cs (byteCount front)) {u : Usage}
    (hu : u.Starts b.text.toList) :
    ∃ o < byteCount b.text.toList, (u.movedTo b.start).location =
      some (Location.move ⟨1, 1⟩ cs (byteCount front + o)) := by
  obtain ⟨o, ho, hloc⟩ := hu
  have hstands : Text.StandsAt cs (byteCount front) b.text.toList := ⟨front, back, hcs, rfl⟩
  refine ⟨o, ho, ?_⟩
  rw [Usage.movedTo, hloc, Option.map_some, Origin.map_move, hstart,
    hstands.move_eq (Nat.le_of_lt ho)]

/-- Usages in blocks that are spread from an offset on stand behind this offset. -/
theorem Spread.exists_offset {cs : List Char} {lo hi : Nat} {bs : List Block}
    (h : Spread cs lo hi bs) {b : Block} (hb : b ∈ bs) {u : Usage} (hu : u.Starts b.text.toList) :
    ∃ o, lo ≤ o ∧ (u.movedTo b.start).location = some (Location.move ⟨1, 1⟩ cs o) := by
  induction bs generalizing lo with
  | nil => exact absurd hb List.not_mem_nil
  | cons b' bs ih =>
    obtain ⟨front, back, hcs, hlo, hstart, hrest⟩ := h
    rcases List.mem_cons.mp hb with rfl | hb
    · obtain ⟨o, -, hloc⟩ := location_movedTo hcs hstart hu
      exact ⟨byteCount front + o, by omega, hloc⟩
    · obtain ⟨o, ho, hloc⟩ := ih hrest hb
      exact ⟨o, by omega, hloc⟩

/-- What a block uses, by its text. -/
def usages (ofText : String → List Usage) (b : Block) : List Usage :=
  (ofText b.text).map (Usage.movedTo b.start)

/-- No two blocks have a usage at the same place. -/
theorem Spread.spot_ne {cs : List Char} {lo hi : Nat} {bs : List Block} (h : Spread cs lo hi bs)
    {ofText : String → List Usage} (hstarts : ∀ text, ∀ u ∈ ofText text, u.Starts text.toList) :
    bs.Pairwise fun b b' => ∀ u ∈ b.usages ofText, ∀ v ∈ b'.usages ofText, u.spot ≠ v.spot := by
  induction bs generalizing lo with
  | nil => exact .nil
  | cons b bs ih =>
    obtain ⟨front, back, hcs, -, hstart, hrest⟩ := h
    refine .cons (fun b' hb' u hu v hv hspot => ?_) (ih hrest)
    obtain ⟨u, hu', rfl⟩ := List.mem_map.mp hu
    obtain ⟨v, hv', rfl⟩ := List.mem_map.mp hv
    obtain ⟨o, ho, hloc⟩ := location_movedTo hcs hstart (hstarts b.text u hu')
    obtain ⟨o', ho', hloc'⟩ := hrest.exists_offset hb' (hstarts b'.text v hv')
    have hsame := congrArg Prod.snd hspot
    simp only [Usage.spot, hloc, hloc', Option.some.injEq] at hsame
    have := Location.move_injective _ _ hsame
    omega

end Html.Block

namespace Checker

/-- The issues of a text, moved. -/
theorem issuesOf_map_movedTo (c : Checker) (start : Location) {cs : List Char} {us : List Usage}
    (hus : ∀ u ∈ us, u.Starts cs) :
    c.issuesOf (us.map (Usage.movedTo start)) = (c.issuesOf us).map (Issue.movedTo start) := by
  have hfilter : ((us.map (Usage.movedTo start)).filter fun u => !c.accepts u.key) =
      (us.filter fun u => !c.accepts u.key).map (Usage.movedTo start) := by
    rw [List.filter_map]
    rfl
  rw [issuesOf, reported, hfilter, firstOf_map (k := Usage.spot), issuesOf, reported, List.map_map,
    List.map_map]
  · rfl
  · intro u hu v hv
    exact Usage.spot_movedTo_inj (hus u (List.mem_of_mem_filter hu))
      (hus v (List.mem_of_mem_filter hv))

/-- One collector for all blocks finds in each of them what one of its own would find. -/
theorem issuesOf_blocks (c : Checker) {cs : List Char} {lo hi : Nat} {bs : List Html.Block}
    (hbs : Html.Block.Spread cs lo hi bs) {ofText : String → List Usage}
    (hstarts : ∀ text, ∀ u ∈ ofText text, u.Starts text.toList) :
    c.issuesOf (bs.flatMap (·.usages ofText)) =
      bs.flatMap fun b => (c.issuesOf (ofText b.text)).map (Issue.movedTo b.start) := by
  have happart := hbs.spot_ne hstarts
  rw [issuesOf, reported, List.filter_flatMap, firstOf_flatMap, List.map_flatMap]
  · exact congrArg (bs.flatMap ·)
      (funext fun b => c.issuesOf_map_movedTo b.start (hstarts b.text))
  · exact happart.imp fun {b b'} h u hu v hv =>
      h u (List.mem_of_mem_filter hu) v (List.mem_of_mem_filter hv)

/-! ## Reports -/

end Checker

/-- The blocks of a kind in a text, in order. A text that cannot be read has none. -/
def Html.textBlocks (kind : Html.BlockKind) (code : String) : List Html.Block :=
  (Html.Document.parse? code).elim [] fun d => d.blocks.filter (·.kind = kind)

theorem Html.textBlocks_spread (kind : Html.BlockKind) (code : String) :
    Html.Block.Spread code.toList 0 (byteCount code.toList) (Html.textBlocks kind code) := by
  rw [textBlocks]
  cases hd : Html.Document.parse? code with
  | none => exact Nat.zero_le _
  | some d => exact (Html.Document.blocks_spread hd).filter _

namespace Checker

/-- What a style sheet uses, by its text. -/
def styleTextUsages (text : String) : List Usage := Css.Snippet.usages ⟨text, .stylesheet, .whole⟩

/-- What a script uses, by its text. One that cannot be read uses nothing. -/
def scriptTextUsages (text : String) : List Usage := (Script.usages? .plain .whole text).getD []

theorem styleUsages_eq (b : Html.Block) :
    (styleSnippet b).usages = b.usages styleTextUsages := Css.Snippet.usages_verbatim _ _ _

theorem scriptUsages_eq (b : Html.Block) : scriptUsages b = b.usages scriptTextUsages := by
  rw [scriptUsages, Html.Block.usages, scriptTextUsages, Script.usages?_verbatim]
  cases Script.usages? .plain .whole b.text <;> rfl

theorem styleTextUsages_starts (text : String) :
    ∀ u ∈ styleTextUsages text, u.Starts text.toList := Css.Snippet.usages_starts text

theorem scriptTextUsages_starts (text : String) :
    ∀ u ∈ scriptTextUsages text, u.Starts text.toList := by
  intro u hu
  rw [scriptTextUsages] at hu
  cases h : Script.usages? .plain .whole text with
  | none =>
    rw [h] at hu
    exact absurd hu List.not_mem_nil
  | some us =>
    rw [h] at hu
    exact Script.usages?_starts h u hu

section

variable {c : Checker} (hc : c.Steady)

include hc

theorem run_of_steady (code : String) (r : Route) :
    c.run code r = some (c.reportOf r.language (r.parts code)) := report?_eq hc code (.direct r)

theorem auditCss_of_steady (text : String) :
    c.auditCss text = some (c.reportOn .css (styleTextUsages text)) := by
  rw [← reportOf_singleton]
  exact run_of_steady hc text .css

theorem auditScript_of_steady (text : String) :
    c.auditScript text false = some (c.reportOn .js (scriptTextUsages text)) := by
  have hparts : Route.parts text (.script false) = (Script.usages? .plain .whole text).toList := rfl
  rw [show c.auditScript text false = _ from run_of_steady hc text (.script false), hparts,
    scriptTextUsages]
  cases Script.usages? .plain .whole text with
  | none => rfl
  | some us =>
    rw [Option.toList_some, reportOf_singleton, Option.getD_some]
    rfl

end

theorem reportOf_append_pair (c : Checker) (language : Language) (parts : List (List Usage))
    (us vs : List Usage) :
    c.reportOf language (parts ++ [us, vs]) = .ofIssues language c.threshold
      (parts.flatMap c.issuesOf ++ c.issuesOf us ++ c.issuesOf vs)
      ((parts.map List.length).sum + us.length + vs.length) := by
  simp [reportOf, Nat.add_assoc]

/-- The report on a document by its elements and blocks. -/
theorem reportOf_mixed (c : Checker) (code : String) :
    c.reportOf .mixed (Route.mixed.parts code) =
      c.reportOf .mixed (Route.html.parts code ++
        [(Html.textBlocks .style code).flatMap (·.usages styleTextUsages),
          (Html.textBlocks .script code).flatMap (·.usages scriptTextUsages)]) := by
  simp only [Route.parts, Html.textBlocks]
  generalize Html.Document.parse? code = d?
  cases d? with
  | none => rfl
  | some d =>
    have hstyles : d.styleUsages =
        (d.blocks.filter (·.kind = .style)).flatMap (·.usages styleTextUsages) := by
      rw [Html.Document.styleUsages, List.flatMap_map]
      exact congrArg (List.flatMap · _) (funext styleUsages_eq)
    have hscripts : d.scriptUsages =
        (d.blocks.filter (·.kind = .script)).flatMap (·.usages scriptTextUsages) :=
      congrArg (List.flatMap · _) (funext scriptUsages_eq)
    rw [Option.elim_some, Option.elim_some, Option.elim_some, Option.elim_some, hstyles, hscripts]
    rfl

/-- The report on a document is made of the report on its elements and of those on its style sheets
and scripts, each taken as a text of its own, with their issues moved to where the block stands. No
block changes what is found in another one, and a script that cannot be read adds nothing. -/
theorem auditMixed_eq_parts (c : Checker) (hc : c.Steady) (code : String) :
    ∃ (html : Report) (css js : String → Report), c.auditHtml code = some html ∧
      (∀ text, c.auditCss text = some (css text)) ∧
      (∀ text, c.auditScript text false = some (js text)) ∧
      (∀ text, Script.parse? .plain text = none →
        (js text).issues = [] ∧ (js text).summary.checked = 0) ∧
      c.auditMixed code = some (.ofIssues .mixed c.threshold
        (html.issues ++
          (Html.textBlocks .style code).flatMap
            (fun b => (css b.text).issues.map (Issue.movedTo b.start)) ++
          (Html.textBlocks .script code).flatMap
            (fun b => (js b.text).issues.map (Issue.movedTo b.start)))
        (html.summary.checked +
          ((Html.textBlocks .style code).map fun b => (css b.text).summary.checked).sum +
          ((Html.textBlocks .script code).map fun b => (js b.text).summary.checked).sum)) := by
  refine ⟨c.reportOf .html (Route.html.parts code), fun text => c.reportOn .css (styleTextUsages text),
    fun text => c.reportOn .js (scriptTextUsages text), run_of_steady hc code .html,
    auditCss_of_steady hc, auditScript_of_steady hc, fun text htext => ?_, ?_⟩
  · have hnone : scriptTextUsages text = [] := by
      rw [scriptTextUsages, Script.usages?, htext]
      rfl
    simp only [hnone]
    exact ⟨rfl, rfl⟩
  · have hstyles := c.issuesOf_blocks (Html.textBlocks_spread .style code) styleTextUsages_starts
    have hscripts := c.issuesOf_blocks (Html.textBlocks_spread .script code) scriptTextUsages_starts
    have hmixed : c.auditMixed code = some (c.reportOf .mixed (Route.mixed.parts code)) :=
      run_of_steady hc code .mixed
    have hlength : ∀ (bs : List Html.Block) (ofText : String → List Usage),
        (bs.flatMap (·.usages ofText)).length = (bs.map fun b => (ofText b.text).length).sum :=
      fun bs ofText => by simp [Html.Block.usages, List.length_flatMap]
    rw [hmixed, reportOf_mixed, reportOf_append_pair, hstyles, hscripts, hlength, hlength]
    simp only [reportOf, reportOn, Report.ofIssues]

/-- A document with a style sheet and a script. -/
theorem auditMixed_eq_parts_both :
    ∃ (html : Report) (css js : String → Report),
      (unaware .high).auditHtml "<style>a\x7bgap:1px\x7d</style><script>Map</script>" = some html ∧
      (∀ text, (unaware .high).auditCss text = some (css text)) ∧
      (∀ text, (unaware .high).auditScript text false = some (js text)) ∧
      ∃ r, (unaware .high).auditMixed "<style>a\x7bgap:1px\x7d</style><script>Map</script>" = some r ∧
        r.issues = html.issues ++
          (Html.textBlocks .style "<style>a\x7bgap:1px\x7d</style><script>Map</script>").flatMap
            (fun b => (css b.text).issues.map (Issue.movedTo b.start)) ++
          (Html.textBlocks .script "<style>a\x7bgap:1px\x7d</style><script>Map</script>").flatMap
            (fun b => (js b.text).issues.map (Issue.movedTo b.start)) := by
  obtain ⟨html, css, js, hhtml, hcss, hjs, -, hmixed⟩ := auditMixed_eq_parts (unaware .high)
    (unaware_steady .high) "<style>a\x7bgap:1px\x7d</style><script>Map</script>"
  exact ⟨html, css, js, hhtml, hcss, hjs, _, hmixed, rfl⟩

end Checker

end BaselineAudit
