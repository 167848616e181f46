import BaselineAudit.Proofs.Audit.Parts

/-!
# What a report says is so

* `Checker.report_nodup`: a report never has one key twice at one place, and merging the reports on a
  script and on its styles loses no issue.
* `Checker.issue_justified`: an issue has the key and the place that its kind asks for, the feature
  and the status that the checker knows of that key, and a level that is not accepted.
-/

namespace BaselineAudit

/-- An issue has the status that a source answers; without one it is not supported. -/
def Issue.HasStatus (i : Issue) : Answer → Prop
  | .status s =>
    i.level = s.level ∧ i.lowDate = s.lowDate ∧ i.highDate = s.highDate ∧ i.support = s.support
  | .unknown _ => i.level = .unsupported ∧ i.lowDate = none ∧ i.highDate = none ∧ i.support = none
  | .breakdown => False

/-- An issue that a checker has reason to report. -/
structure Issue.Justified (c : Checker) (i : Issue) : Prop where
  keyed : i.usage.IsKeyed
  placed : i.usage.IsPlaced
  feature : i.feature = c.index.lookup i.key
  status : i.HasStatus (c.resolver (i.feature.getD "") i.key)
  rejected : c.threshold.accepts i.level = false

namespace Checker

/-- A checker that knows no key and whose source has no status. -/
def unaware (threshold : Threshold) : Checker :=
  ⟨{}, fun _ key => .unknown (.unmappedKey key), threshold⟩

/-! ## No repeats -/

/-- No key is reported twice at one place, and the report on a script with markup has the issues of
the script followed by all issues of its styles. -/
theorem report_nodup (c : Checker) (code : String) :
    (∀ e r, c.report? code e = some r → (r.issues.map Issue.spot).Nodup) ∧
      c.auditComponent code =
        (Component.parse? code).elim (some (c.nothing .jsx)) fun k =>
          (do
            let script ← c.judge .jsx k.scriptUsages
            let styles ← c.judge .jsx k.styleUsages
            pure (.ofIssues .jsx c.threshold (script.issues ++ styles.issues)
              (script.summary.checked + styles.summary.checked))) := by
  constructor
  · intro e r h
    rcases report?_cases h with ⟨route, -, rfl⟩ | h
    · exact c.flatMap_issuesOf_nodup (route.parts_pairwise code)
    · rw [h]; exact .nil
  · rw [auditComponent_eq]
    generalize Component.parse? code = k?
    cases k? with
    | none => rfl
    | some k =>
      have hk : ∀ u ∈ k.scriptUsages, ∀ v ∈ k.styleUsages, u.key ≠ v.key := fun u hu v hv =>
        Usage.key_ne_of_realm_ne (k.scriptUsages_isFound u hu) (k.styleUsages_isFound v hv) (by decide)
      have hm := c.mergeDistinct_reportOn hk
      simp only [Option.elim, judge_eq]
      cases k.scriptUsages.any fun u => c.breaks u.key <;>
        cases k.styleUsages.any fun u => c.breaks u.key <;> try rfl
      refine congrArg some (hm.trans ?_)
      simp [Report.merge, Report.totalChecked, Report.ofIssues, reportOn]

theorem report_nodup_map :
    (((unaware .low).analyze "Map; Map; new Map" "javascript").issues.map Issue.spot).Nodup :=
  (report_nodup (unaware .low) "Map; Map; new Map").1 (.tagged "javascript") _ rfl

/-! ## Justified issues -/

theorem issueOf_hasStatus {c : Checker} {u : Usage} (h : c.breaks u.key = false) :
    (c.issueOf u).HasStatus (c.resolver ((c.issueOf u).feature.getD "") u.key) := by
  show (Collector.issue c u (c.status? u.key)).HasStatus (c.ask u.key)
  unfold breaks at h
  unfold status?
  cases ha : c.ask u.key with
  | status s => exact ⟨rfl, rfl, rfl, rfl⟩
  | unknown e => exact ⟨rfl, rfl, rfl, rfl⟩
  | breakdown => rw [ha] at h; exact absurd h (by simp)

/-- There is a reason for every issue of a report. -/
theorem issue_justified (c : Checker) (code : String) (e : Entry) (r : Report)
    (h : c.report? code e = some r) (i : Issue) (hi : i ∈ r.issues) : i.Justified c := by
  rcases report?_cases h with ⟨route, hb, rfl⟩ | h
  · obtain ⟨us, hus, hi⟩ := List.mem_flatMap.mp hi
    obtain ⟨u, hu, ha, rfl⟩ := mem_issuesOf hi
    have hf := Route.isFound_of_mem_parts hus hu
    have hk : c.breaks u.key = false := by
      have := List.any_eq_false.mp hb us hus
      simpa using List.any_eq_false.mp (by simpa using this) u hu
    exact ⟨hf.keyed, hf.placed, rfl, issueOf_hasStatus hk, ha⟩
  · rw [h] at hi; exact absurd hi List.not_mem_nil

theorem issue_justified_map :
    Issue.Justified (unaware .low)
      ⟨.builtin, "Map", none, "javascript.builtins.Map", none, .unsupported, none, none,
        some ⟨1, 1⟩, none⟩ :=
  issue_justified (unaware .low) "Map" (.direct (.script false)) _
    (show _ = some (.ofIssues .js .low [⟨.builtin, "Map", none, "javascript.builtins.Map", none,
      .unsupported, none, none, some ⟨1, 1⟩, none⟩] 1) by decide +kernel) _ (List.mem_singleton_self _)

end Checker

end BaselineAudit
