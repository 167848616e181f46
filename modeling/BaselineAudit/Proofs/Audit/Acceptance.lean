import BaselineAudit.Proofs.Audit.Soundness
import BaselineAudit.Report.Score

/-!
# Reports of two checkers

What is read off a text does not depend on the checker, and whether a usage passes depends on its key
alone. So the report of a checker that accepts more is the other report with some issues left out.

* `Checker.Steady`: the source of statuses never breaks down.
* `Checker.report?_eq`: a steady checker has a report on every text.
* `Checker.reported_filter`: accepting more keys leaves out the usages of these keys.
* `Checker.report_of_accepts_more`: the same for whole reports, and for the two thresholds.
-/

namespace BaselineAudit.Checker

/-- The source of statuses never breaks down. -/
def Steady (c : Checker) : Prop := ∀ feature key, c.resolver feature key ≠ .breakdown

theorem unaware_steady (threshold : Threshold) : (unaware threshold).Steady := by
  intro feature key h
  cases h

theorem Steady.breaks {c : Checker} (hc : c.Steady) (key : String) : c.breaks key = false := by
  have h := hc ((c.index.lookup key).getD "") key
  unfold Checker.breaks ask
  cases ha : c.resolver ((c.index.lookup key).getD "") key with
  | status s => rfl
  | unknown e => rfl
  | breakdown => exact absurd ha h

theorem Steady.breaksOn {c : Checker} (hc : c.Steady) (parts : List (List Usage)) :
    c.breaksOn parts = false := by
  simp [Checker.breaksOn, hc.breaks]

/-- The route by which a text is audited. -/
def Entry.route (code : String) : Entry → Route
  | .direct route => route
  | .tagged tag => .select code tag
  | .detected => .select code (Detect.detect code)

/-- A steady checker has a report on every text. -/
theorem report?_eq {c : Checker} (hc : c.Steady) (code : String) (e : Entry) :
    c.report? code e =
      some (c.reportOf (e.route code).language ((e.route code).parts code)) := by
  have run : ∀ route : Route, c.run code route =
      some (c.reportOf route.language (route.parts code)) := by
    intro route
    rw [run_eq, hc.breaksOn]
    rfl
  have analyze : ∀ tag, some (c.analyze code tag) = c.run code (.select code tag) := by
    intro tag
    rw [analyze_eq, run, Option.getD_some]
  cases e with
  | direct route => exact run route
  | tagged tag => exact (analyze tag).trans (run _)
  | detected => exact (analyze (Detect.detect code)).trans (run _)

/-! ## Accepting more -/

section

variable {a b : Checker} (h : ∀ key, b.accepts key = true → a.accepts key = true)

include h

theorem filter_accepts (us : List Usage) :
    (us.filter fun u => !a.accepts u.key) =
      (us.filter fun u => !b.accepts u.key).filter fun u => !a.accepts u.key := by
  rw [List.filter_filter]
  refine List.filter_congr fun u _ => ?_
  cases hb : b.accepts u.key with
  | false => simp
  | true => simp [h u.key hb]

/-- Accepting more keys leaves out the usages of these keys, and nothing else. -/
theorem reported_filter (us : List Usage) :
    a.reported us = (b.reported us).filter fun u => !a.accepts u.key := by
  rw [reported, reported, filter_accepts h]
  refine firstOf_filter _ (fun u v hs => ?_) [] _
  rw [show u.key = v.key from congrArg Prod.fst hs]

theorem issuesOf_usage_filter (parts : List (List Usage)) :
    (parts.flatMap a.issuesOf).map Issue.usage =
      ((parts.flatMap b.issuesOf).map Issue.usage).filter fun u => !a.accepts u.key := by
  have usages : ∀ (c : Checker) (us : List Usage), (c.issuesOf us).map Issue.usage = c.reported us := by
    intro c us
    simp [issuesOf, Function.comp_def]
  simp only [List.map_flatMap, usages, List.filter_flatMap]
  exact congrArg (parts.flatMap ·) (funext (reported_filter h))

end

/-! ## The two thresholds -/

section

variable {a b : Checker} (hi : a.index = b.index) (hr : a.resolver = b.resolver)

include hi hr

theorem status?_congr (key : String) : a.status? key = b.status? key := by
  simp only [status?, ask, hi, hr]

theorem issueOf_congr (u : Usage) : a.issueOf u = b.issueOf u := by
  simp only [issueOf, Collector.issue, status?_congr hi hr, hi]

theorem level_congr (key : String) : a.level key = b.level key := by
  simp only [level, status?_congr hi hr]

variable (ha : a.threshold = .low) (hb : b.threshold = .high)

include ha

theorem accepts_low (key : String) : (!a.accepts key) = decide (b.level key = .unsupported) := by
  rw [accepts, level_congr hi hr, ha]
  cases b.level key <;> rfl

include hb

theorem accepts_of_high (key : String) (h : b.accepts key = true) : a.accepts key = true := by
  rw [accepts, hb] at h
  rw [accepts, ha, level_congr hi hr]
  cases hl : b.level key with
  | unsupported => rw [hl] at h; exact h
  | low => rfl
  | high => rfl

/-- At the lower threshold, the issues are those whose level is `unsupported`. -/
theorem issuesOf_low (parts : List (List Usage)) :
    parts.flatMap a.issuesOf =
      (parts.flatMap b.issuesOf).filter fun i => i.level = .unsupported := by
  rw [List.filter_flatMap]
  refine congrArg (parts.flatMap ·) (funext fun us => ?_)
  rw [issuesOf, reported_filter (accepts_of_high hi hr ha hb), issuesOf, List.filter_map,
    funext (issueOf_congr hi hr)]
  simp only [accepts_low hi hr ha]
  rfl

end

/-! ## Reports -/

/-- Two checkers read the same off a text. The one that accepts more leaves out the usages whose key it
accepts, and nothing else. With the same index and source, the report at the lower threshold has the
issues of the other one whose level is `unsupported`, which are the critical ones. -/
theorem report_of_accepts_more (a b : Checker) (ha : a.Steady) (hb : b.Steady) (code : String)
    (e : Entry) :
    ∃ r s, a.report? code e = some r ∧ b.report? code e = some s ∧
      r.language = s.language ∧ r.summary.checked = s.summary.checked ∧
      ((∀ key, b.accepts key = true → a.accepts key = true) →
        r.issues.map Issue.usage = (s.issues.map Issue.usage).filter fun u => !a.accepts u.key) ∧
      (a.index = b.index → a.resolver = b.resolver → a.threshold = .low → b.threshold = .high →
        r = .ofIssues s.language .low (s.issues.filter fun i => i.level = .unsupported)
          s.summary.checked ∧
        r.issues.countP (Severity.of · = .moderate) = 0 ∧
        r.issues.countP (Severity.of · = .critical) =
          s.issues.countP (Severity.of · = .critical)) := by
  have critical : ∀ i, (Severity.of i = .critical) ↔ i.level = .unsupported := by
    intro i
    unfold Severity.of
    split <;> simp_all
  refine ⟨_, _, report?_eq ha code e, report?_eq hb code e, rfl, rfl,
    fun h => issuesOf_usage_filter h _, fun hi hr hl hh => ?_⟩
  have hlow := issuesOf_low hi hr hl hh ((e.route code).parts code)
  refine ⟨?_, ?_, ?_⟩
  · rw [reportOf, hlow, hl]
    rfl
  · refine List.countP_eq_zero.mpr fun i him => ?_
    have him : i ∈ ((e.route code).parts code).flatMap a.issuesOf := him
    rw [hlow] at him
    have hc := (critical i).mpr (by simpa using (List.mem_filter.mp him).2)
    simp [hc]
  · show (((e.route code).parts code).flatMap a.issuesOf).countP _ = _
    rw [hlow, List.countP_filter]
    refine List.countP_congr fun i _ => ?_
    simp [critical]

theorem report_of_accepts_more_map :
    ∃ r s, (unaware .low).report? "Map" (.direct (.script false)) = some r ∧
      (unaware .high).report? "Map" (.direct (.script false)) = some s ∧
      r.issues = s.issues.filter fun i => i.level = .unsupported := by
  obtain ⟨r, s, hr, hs, -, -, -, h⟩ := report_of_accepts_more (unaware .low) (unaware .high)
    (unaware_steady .low) (unaware_steady .high) "Map" (.direct (.script false))
  exact ⟨r, s, hr, hs, congrArg Report.issues (h rfl rfl rfl rfl).1⟩

end BaselineAudit.Checker
