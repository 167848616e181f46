import BaselineAudit.Proofs.Audit.Soundness

/-!
# The counts of a report

A report says how many usages were checked and how many of them are issues. The second number is that
of the issues it lists, and is at most the first one.

* `Report.Reachable`: the reports that audits and merges give, merges of merges included.
* `Report.consistent_merge`, `Report.consistent_mergeDistinct`: merging keeps the counts right, also
  where it drops issues.
* `Checker.consistent_report?`: the counts of an audit are right.
* `Report.counts_of_reachable`: so they are in every report.
-/

namespace BaselineAudit

namespace Report

/-- The counts of a report agree with the issues that it lists. -/
structure Consistent (r : Report) : Prop where
  below : r.summary.below = r.issues.length
  length_le : r.issues.length ≤ r.summary.checked

/-- The reports that come about: of audits by any checker, of texts in which nothing was checked, and
of parts that were merged, in any language and at any threshold. -/
inductive Reachable : Report → Prop
  | audited {c : Checker} {code : String} {e : Checker.Entry} {r : Report}
      (h : c.report? code e = some r) : Reachable r
  | empty (language : Language) (threshold : Threshold) : Reachable (empty language threshold)
  | merged (language : Language) (threshold : Threshold) {parts : List Report}
      (h : ∀ p ∈ parts, Reachable p) : Reachable (merge language threshold parts)
  | mergedDistinct (language : Language) (threshold : Threshold) {parts : List Report}
      (h : ∀ p ∈ parts, Reachable p) : Reachable (mergeDistinct language threshold parts)

theorem consistent_empty (language : Language) (threshold : Threshold) :
    (empty language threshold).Consistent := ⟨rfl, Nat.le_refl 0⟩

theorem consistent_ofIssues (language : Language) (threshold : Threshold) {issues : List Issue}
    {checked : Nat} (h : issues.length ≤ checked) :
    (ofIssues language threshold issues checked).Consistent := ⟨rfl, h⟩

/-- The parts have no more issues than they checked usages. -/
theorem length_issues_le_totalChecked {parts : List Report} (h : ∀ p ∈ parts, p.Consistent) :
    (parts.flatMap (·.issues)).length ≤ totalChecked parts := by
  induction parts with
  | nil => exact Nat.le_refl 0
  | cons p parts ih =>
    have hp := (h p List.mem_cons_self).length_le
    have hparts := ih fun q hq => h q (List.mem_cons_of_mem _ hq)
    rw [List.flatMap_cons, List.length_append]
    exact Nat.add_le_add hp hparts

theorem consistent_merge (language : Language) (threshold : Threshold) {parts : List Report}
    (h : ∀ p ∈ parts, p.Consistent) : (merge language threshold parts).Consistent :=
  consistent_ofIssues language threshold (length_issues_le_totalChecked h)

/-- Dropping the issues that repeat others leaves fewer of them, and as many usages. -/
theorem consistent_mergeDistinct (language : Language) (threshold : Threshold) {parts : List Report}
    (h : ∀ p ∈ parts, p.Consistent) : (mergeDistinct language threshold parts).Consistent := by
  refine consistent_ofIssues language threshold ?_
  rw [distinctFrom_eq_firstOf]
  exact Nat.le_trans (firstOf_sublist _ _ _).length_le (length_issues_le_totalChecked h)

end Report

namespace Checker

theorem length_issuesOf_le (c : Checker) (us : List Usage) : (c.issuesOf us).length ≤ us.length := by
  rw [issuesOf, List.length_map]
  calc (c.reported us).length
      ≤ (us.filter fun u => !c.accepts u.key).length := (firstOf_sublist _ _ _).length_le
    _ ≤ us.length := List.length_filter_le _ _

theorem consistent_reportOf (c : Checker) (language : Language) (parts : List (List Usage)) :
    (c.reportOf language parts).Consistent := by
  refine Report.consistent_ofIssues language c.threshold ?_
  induction parts with
  | nil => exact Nat.le_refl 0
  | cons us parts ih =>
    rw [List.flatMap_cons, List.length_append, List.map_cons, List.sum_cons]
    exact Nat.add_le_add (c.length_issuesOf_le us) ih

theorem consistent_run {c : Checker} {code : String} {route : Route} {r : Report}
    (h : c.run code route = some r) : r.Consistent := by
  rw [run_eq] at h
  split at h
  · exact absurd h (by simp)
  · exact Option.some.inj h ▸ c.consistent_reportOf route.language (route.parts code)

theorem consistent_analyze (c : Checker) (code tag : String) : (c.analyze code tag).Consistent := by
  rw [analyze_eq]
  cases hr : c.run code (.select code tag) with
  | none => exact Report.consistent_empty (.ofTag tag) c.threshold
  | some r => exact consistent_run hr

/-- The counts of an audit are right. -/
theorem consistent_report? {c : Checker} {code : String} {e : Entry} {r : Report}
    (h : c.report? code e = some r) : r.Consistent := by
  cases e with
  | direct route => exact consistent_run h
  | tagged tag => exact Option.some.inj h ▸ c.consistent_analyze code tag
  | detected => exact Option.some.inj h ▸ c.consistent_analyze code (Detect.detect code)

end Checker

namespace Report

/-- In every report, the count of usages below the threshold is the number of issues, and there are
no more issues than usages that were checked. -/
theorem counts_of_reachable (r : Report) (h : r.Reachable) :
    r.summary.below = r.issues.length ∧ r.issues.length ≤ r.summary.checked := by
  suffices hc : r.Consistent from ⟨hc.below, hc.length_le⟩
  induction h with
  | audited h => exact Checker.consistent_report? h
  | empty language threshold => exact consistent_empty language threshold
  | merged language threshold _ ih => exact consistent_merge language threshold ih
  | mergedDistinct language threshold _ ih => exact consistent_mergeDistinct language threshold ih

/-- A report merged with itself lists its issue once and counts its usage twice. -/
theorem counts_of_reachable_twice :
    ∃ r : Report, r.Reachable ∧ r.summary = ⟨2, 1⟩ ∧
      r.summary.below = r.issues.length ∧ r.issues.length ≤ r.summary.checked := by
  obtain ⟨a, ha, hs⟩ : ∃ a, (Checker.unaware .low).report? "Map" (.direct (.script false)) = some a ∧
      (mergeDistinct .mixed .high [a, merge .jsx .low [a, empty .css .low]]).summary = ⟨2, 1⟩ :=
    ⟨.ofIssues .js .low [⟨.builtin, "Map", none, "javascript.builtins.Map", none, .unsupported, none,
      none, some ⟨1, 1⟩, none⟩] 1, by decide +kernel, by decide⟩
  have hinner : (merge .jsx .low [a, empty .css .low]).Reachable :=
    .merged _ _ (List.forall_mem_cons.mpr
      ⟨.audited ha, List.forall_mem_cons.mpr ⟨.empty _ _, by simp⟩⟩)
  have hr : (mergeDistinct .mixed .high [a, merge .jsx .low [a, empty .css .low]]).Reachable :=
    .mergedDistinct _ _ (List.forall_mem_cons.mpr
      ⟨.audited ha, List.forall_mem_cons.mpr ⟨hinner, by simp⟩⟩)
  exact ⟨_, hr, hs, counts_of_reachable _ hr⟩

end Report

end BaselineAudit
