import BaselineAudit.Proofs.Report.Merging
import BaselineAudit.Proofs.Report.Ranking
import Mathlib.Algebra.GroupWithZero.Nat
import Mathlib.Data.List.Flatten
import Mathlib.Data.List.Perm.Subperm

/-!
# What a score counts

The counts of a score, its overall value and the browsers that lack something depend on which issues a
report has, and how often, but not on their order.

* `Score.Tallies`: each of them as a matter of some issues, those of the report
  (`Score.tallies_ofReport`).
* `Score.overall_anti`: more issues never raise the overall value.
* `Score.tally_of_merge`: so scores of reports with the same issues agree, and those of parts add up to
  that of their merge.
-/

namespace BaselineAudit

namespace Score

/-! ## Counts -/

/-- How many issues of a severity there are. -/
def count (severity : Severity) (issues : List Issue) : Nat :=
  issues.countP fun i => Severity.of i = severity

theorem countP_issues (r : Report) (severity : Severity) :
    (ofReport r).issues.countP (·.severity == severity) = count severity r.issues := by
  rw [(issues_perm r).countP_eq, List.countP_map]
  exact List.countP_congr fun i _ => by simp [ScoredIssue.of]

theorem errors_eq (r : Report) : (ofReport r).errors = count .critical r.issues :=
  countP_issues r .critical

theorem warnings_eq (r : Report) : (ofReport r).warnings = count .moderate r.issues :=
  countP_issues r .moderate

/-- The points that issues cost, by how many of each severity there are. -/
theorem penalty_eq (issues : List ScoredIssue) :
    penalty issues =
      3 * issues.countP (·.severity == .critical) + 2 * issues.countP (·.severity == .moderate) := by
  induction issues with
  | nil => rfl
  | cons s issues ih =>
    have hcons : penalty (s :: issues) = s.severity.penalty + penalty issues := rfl
    rw [hcons, ih, List.countP_cons, List.countP_cons]
    cases s.severity <;> simp [Severity.penalty] <;> omega

theorem overall_eq (r : Report) :
    (ofReport r).overall = 100 - (3 * (ofReport r).errors + 2 * (ofReport r).warnings) :=
  congrArg (100 - ·) (penalty_eq _)

theorem count_merge (severity : Severity) (language : Language) (threshold : Threshold)
    (parts : List Report) : count severity (Report.merge language threshold parts).issues =
      (parts.map fun p => count severity p.issues).sum :=
  List.countP_flatMap

/-- More issues never raise the overall value. -/
theorem overall_anti {r s : Report} (h : r.issues.Subperm s.issues) :
    (ofReport s).overall ≤ (ofReport r).overall := by
  have herrors : count .critical r.issues ≤ count .critical s.issues := h.countP_le _
  have hwarnings : count .moderate r.issues ≤ count .moderate s.issues := h.countP_le _
  rw [overall_eq, overall_eq, errors_eq, errors_eq, warnings_eq, warnings_eq]
  omega

/-! ## Browsers -/

/-- A browser lacks what an issue is about. -/
def Lacks (browser : String) (i : Issue) : Prop := browser ∈ coreBrowsers ∧ supports browser i = false

theorem mem_addLacking {found : List String} {s : ScoredIssue} {browser : String} :
    browser ∈ addLacking found s ↔ browser ∈ found ∨ Lacks browser s.issue := by
  rw [addLacking, List.mem_append, List.mem_filter, Lacks]
  by_cases hfound : browser ∈ found
  · simp [hfound]
  · simp [hfound]

/-- A browser comes up if it lacks what one of the issues is about. -/
theorem mem_lackingBrowsers {issues : List ScoredIssue} {browser : String} :
    browser ∈ lackingBrowsers issues ↔ ∃ s ∈ issues, Lacks browser s.issue := by
  suffices H : ∀ found, browser ∈ issues.foldl addLacking found ↔
      browser ∈ found ∨ ∃ s ∈ issues, Lacks browser s.issue by
    simpa [lackingBrowsers] using H []
  induction issues with
  | nil => simp
  | cons s issues ih =>
    intro found
    rw [List.foldl_cons, ih, mem_addLacking, or_assoc, List.exists_mem_cons_iff]

theorem mem_browsers_iff {r : Report} {browser : String} :
    browser ∈ (ofReport r).browsers ↔ ∃ i ∈ r.issues, Lacks browser i := by
  refine mem_lackingBrowsers.trans ?_
  constructor
  · rintro ⟨s, hs, h⟩
    obtain ⟨i, hi, rfl⟩ := mem_issues.mp hs
    exact ⟨i, hi, h⟩
  · rintro ⟨i, hi, h⟩
    exact ⟨.of i, mem_issues.mpr ⟨i, hi, rfl⟩, h⟩

/-! ## Tallies -/

/-- A score counts these issues, of which one costs 3 points if it is critical and 2 if not, and speaks
of the browsers that lack what one of them is about. -/
structure Tallies (s : Score) (issues : List Issue) : Prop where
  errors : s.errors = count .critical issues
  warnings : s.warnings = count .moderate issues
  overall : s.overall = 100 - (3 * s.errors + 2 * s.warnings)
  browsers : ∀ browser, browser ∈ s.browsers ↔ ∃ i ∈ issues, Lacks browser i

theorem tallies_ofReport (r : Report) : (ofReport r).Tallies r.issues :=
  ⟨errors_eq r, warnings_eq r, overall_eq r, fun _ => mem_browsers_iff⟩

/-- The order of the issues does not matter. -/
theorem Tallies.perm {s : Score} {issues issues' : List Issue} (hs : s.Tallies issues)
    (h : issues.Perm issues') : s.Tallies issues' := by
  refine ⟨hs.errors.trans (h.countP_eq _), hs.warnings.trans (h.countP_eq _), hs.overall, ?_⟩
  intro browser
  rw [hs.browsers]
  exact exists_congr fun i => and_congr_left' h.mem_iff

/-- Two scores have the same counts, the same overall value and the same browsers in some order. -/
structure Agrees (a b : Score) : Prop where
  errors : a.errors = b.errors
  warnings : a.warnings = b.warnings
  overall : a.overall = b.overall
  browsers : ∀ browser, browser ∈ a.browsers ↔ browser ∈ b.browsers

/-- Scores of the same issues agree. -/
theorem Tallies.agrees {a b : Score} {issues : List Issue} (ha : a.Tallies issues)
    (hb : b.Tallies issues) : a.Agrees b := by
  have herrors : a.errors = b.errors := ha.errors.trans hb.errors.symm
  have hwarnings : a.warnings = b.warnings := ha.warnings.trans hb.warnings.symm
  refine ⟨herrors, hwarnings, ?_, fun browser => (ha.browsers browser).trans (hb.browsers browser).symm⟩
  rw [ha.overall, hb.overall, herrors, hwarnings]

/-- The issues of some parts are among those of more parts. -/
theorem subperm_issues {parts more : List Report} (h : parts.Subperm more) :
    (parts.flatMap (·.issues)).Subperm (more.flatMap (·.issues)) := by
  obtain ⟨kept, hperm, hsub⟩ := h
  exact (hperm.flatMap_right _).subperm_right.mp (hsub.flatMap _).subperm

/-- A score counts what other scores count together, has the overall value that goes with its counts,
and speaks of the browsers that one of the others speaks of. -/
structure SumsUp (whole : Score) (parts : List Score) : Prop where
  errors : whole.errors = (parts.map (·.errors)).sum
  warnings : whole.warnings = (parts.map (·.warnings)).sum
  overall : whole.overall = 100 - (3 * whole.errors + 2 * whole.warnings)
  browsers : ∀ browser, browser ∈ whole.browsers ↔ ∃ p ∈ parts, browser ∈ p.browsers

theorem sumsUp_merge (language : Language) (threshold : Threshold) (parts : List Report) :
    (ofReport (.merge language threshold parts)).SumsUp (parts.map ofReport) := by
  refine ⟨?_, ?_, overall_eq _, fun browser => ?_⟩
  · rw [errors_eq, count_merge, List.map_map]
    exact congrArg List.sum (List.map_congr_left fun p _ => (errors_eq p).symm)
  · rw [warnings_eq, count_merge, List.map_map]
    exact congrArg List.sum (List.map_congr_left fun p _ => (warnings_eq p).symm)
  · simp only [List.mem_map, exists_exists_and_eq_and, mem_browsers_iff, Report.issues_merge,
      List.mem_flatMap]
    constructor
    · rintro ⟨i, ⟨p, hp, hi⟩, h⟩
      exact ⟨p, hp, i, hi, h⟩
    · rintro ⟨p, hp, i, hi, h⟩
      exact ⟨i, ⟨p, hp, hi⟩, h⟩

/-- A score tallies the issues of its report, whatever order they are in. The score of a merge sums up
those of the parts. Its overall value is 100 less 3 for each error and 2 for each warning, but not less
than 0; it never rises when parts are added, wherever they are put, and is not lower if repeated issues
are dropped. -/
theorem tally_of_merge :
    (∀ r : Report, (ofReport r).Tallies r.issues) ∧
    (∀ r s : Report, r.issues.Perm s.issues → (ofReport r).Agrees (ofReport s)) ∧
    (∀ language threshold parts,
      (ofReport (.merge language threshold parts)).SumsUp (parts.map ofReport)) ∧
    (∀ language threshold language' threshold' (parts more : List Report), parts.Subperm more →
      (ofReport (.merge language' threshold' more)).overall ≤
        (ofReport (.merge language threshold parts)).overall) ∧
    ∀ language threshold parts,
      (ofReport (.merge language threshold parts)).overall ≤
        (ofReport (.mergeDistinct language threshold parts)).overall := by
  refine ⟨tallies_ofReport, ?_, sumsUp_merge, ?_, ?_⟩
  · intro r s h
    exact ((tallies_ofReport r).perm h).agrees (tallies_ofReport s)
  · intro language threshold language' threshold' parts more hmore
    exact overall_anti (subperm_issues hmore)
  · intro language threshold parts
    refine overall_anti (List.Sublist.subperm ?_)
    rw [Report.issues_mergeDistinct]
    exact firstOf_sublist _ _ _

/-- The same two issues in either order, one that no browser supports and one that only one browser
supports. The merge of both reports counts each issue twice. -/
theorem tally_of_merge_swapped :
    ∃ a b : Issue, ∃ r s : Report, r.issues = [a, b] ∧ s.issues = [b, a] ∧
      (ofReport r).Agrees (ofReport s) ∧
      (ofReport (.merge .css .high [s, r])).errors = 2 ∧
      (ofReport (.merge .css .high [s, r])).overall = 90 ∧
      (ofReport (.merge .css .high [s, r])).overall ≤ (ofReport (.merge .css .low [r])).overall := by
  obtain ⟨-, hagrees, hsums, hmore, -⟩ := tally_of_merge
  refine ⟨⟨.property, "x", none, "css.properties.x", none, .unsupported, none, none, none, none⟩,
    ⟨.property, "gap", none, "css.properties.gap", none, .low, none, none, some ⟨1, 5⟩,
      some [("chrome", "84")]⟩, .ofIssues .css .high [_, _] 2, .ofIssues .css .high [_, _] 2, rfl, rfl,
    hagrees _ _ (.swap _ _ _), ?_, ?_, hmore _ _ _ _ _ _ (List.subperm_cons_self)⟩
  · rw [(hsums _ _ _).errors]
    simp only [List.map_cons, List.map_nil, errors_eq]
    rfl
  · rw [(hsums _ _ _).overall, (hsums _ _ _).errors, (hsums _ _ _).warnings]
    simp only [List.map_cons, List.map_nil, errors_eq, warnings_eq]
    rfl

end Score

end BaselineAudit
