import BaselineAudit.Proofs.Audit.Acceptance
import Mathlib.Data.List.Induction

/-!
# Calls of a collector

A collector is given usages one by one and answers whether each is a new issue. What it holds at any
point is a matter of the usages that it was given so far.

* `Collector.Holds`: what a collector holds after some usages.
* `Collector.check_of_holds`: one more usage, and the answer to it.
* `Collector.checkAll_holds`: so after any number of them.
* `Collector.recorded_iff_first`: the issues are the first usages of a key at a place among those that
  do not pass, and the collector remembers these and no others.
-/

namespace BaselineAudit

namespace Checker

/-- A usage behind others is an issue: it does not pass, and none of those repeats it. -/
def isNew (c : Checker) (us : List Usage) (u : Usage) : Bool :=
  !c.accepts u.key && !(us.any fun v => !c.accepts v.key && v.spot = u.spot)

theorem isNew_iff {c : Checker} {us : List Usage} {u : Usage} :
    c.isNew us u = true ↔
      c.accepts u.key = false ∧ ∀ v ∈ us, c.accepts v.key = false → v.spot ≠ u.spot := by
  simp [isNew]

/-- What is reported has the keys and places of all usages that do not pass. -/
theorem spot_mem_reported {c : Checker} {us : List Usage} {s : String × Option Location} :
    s ∈ (c.reported us).map Usage.spot ↔ ∃ v ∈ us, c.accepts v.key = false ∧ v.spot = s := by
  simp [reported, mem_map_firstOf, and_assoc]

/-- One more usage is reported if it is new. -/
theorem reported_concat (c : Checker) (us : List Usage) (u : Usage) :
    c.reported (us ++ [u]) = c.reported us ++ if c.isNew us u then [u] else [] := by
  rw [reported, List.filter_append, firstOf_append, ← reported]
  congr 1
  by_cases ha : c.accepts u.key = true
  · rw [List.filter_cons_of_neg (by simp [ha]), if_neg (by simp [isNew, ha])]
    rfl
  · rw [List.filter_cons_of_pos (by simp [ha]), List.filter_nil, List.append_nil]
    by_cases hs : u.spot ∈ (us.filter fun v => !c.accepts v.key).map Usage.spot
    · rw [firstOf_cons_of_mem _ hs, if_neg]
      · rfl
      · intro hnew
        obtain ⟨v, hv, hspot⟩ := List.mem_map.mp hs
        obtain ⟨hmem, hpass⟩ := List.mem_filter.mp hv
        exact (isNew_iff.mp hnew).2 v hmem (by simpa using hpass) hspot
    · rw [firstOf_cons_of_notMem _ hs, if_pos]
      · rfl
      · refine isNew_iff.mpr ⟨by simpa using ha, fun v hv hpass hspot => hs ?_⟩
        exact List.mem_map.mpr ⟨v, List.mem_filter.mpr ⟨hv, by simpa using hpass⟩, hspot⟩

theorem issuesOf_concat (c : Checker) (us : List Usage) (u : Usage) :
    c.issuesOf (us ++ [u]) = c.issuesOf us ++ if c.isNew us u then [c.issueOf u] else [] := by
  rw [issuesOf, reported_concat, List.map_append, ← issuesOf]
  split <;> rfl

end Checker

namespace Collector

/-- What a collector holds after some usages. -/
structure Holds (c : Checker) (us : List Usage) (k : Collector) : Prop where
  checked : k.checked = us.length
  issues : k.issues = c.issuesOf us
  seen : k.seen = names ((c.reported us).map Usage.spot).reverse

theorem holds_nil (c : Checker) : Holds c [] {} := ⟨rfl, rfl, rfl⟩

/-- A collector remembers the names of its issues and no others. -/
theorem Holds.mem_seen {c : Checker} {us : List Usage} {k : Collector} (hk : Holds c us k)
    (n : String) : n ∈ k.seen ↔ ∃ i ∈ k.issues, name i.key i.location = n := by
  rw [hk.seen, hk.issues]
  simp only [names, Checker.issuesOf, List.mem_map, List.mem_reverse, exists_exists_and_eq_and]
  rfl

/-- One more usage counts, and it is recorded if it is new. -/
theorem check_of_holds {c : Checker} {us : List Usage} {k : Collector} (hk : Holds c us k) {u : Usage}
    (hu : c.breaks u.key = false) :
    ∃ k', check c k u = some (k', c.isNew us u) ∧ Holds c (us ++ [u]) k' := by
  have hspot : u.spot ∈ ((c.reported us).map Usage.spot).reverse ↔
      ∃ v ∈ us, c.accepts v.key = false ∧ v.spot = u.spot := by
    rw [List.mem_reverse, Checker.spot_mem_reported]
  rw [check_eq, hu, record_issueOf c hk.seen u]
  by_cases hnew : c.isNew us u = true
  · obtain ⟨ha, hfirst⟩ := Checker.isNew_iff.mp hnew
    have hold : ¬(c.accepts u.key = true ∨ u.spot ∈ ((c.reported us).map Usage.spot).reverse) := by
      rw [hspot]
      rintro (h | ⟨v, hv, hpass, h⟩)
      · exact Bool.false_ne_true (ha.symm.trans h)
      · exact hfirst v hv hpass h
    refine ⟨_, by rw [if_neg hold, hnew]; rfl, ?_, ?_, ?_⟩
    · simp [hk.checked]
    · rw [Checker.issuesOf_concat, if_pos hnew, ← hk.issues]
      simp [issues]
    · rw [Checker.reported_concat, if_pos hnew]
      simp
  · have hold : c.accepts u.key = true ∨ u.spot ∈ ((c.reported us).map Usage.spot).reverse := by
      rw [hspot]
      by_contra h
      rw [not_or, Bool.not_eq_true] at h
      exact hnew (Checker.isNew_iff.mpr ⟨h.1, fun v hv hpass hv' => h.2 ⟨v, hv, hpass, hv'⟩⟩)
    refine ⟨_, by rw [if_pos hold, Bool.eq_false_iff.mpr hnew]; rfl, ?_, ?_, ?_⟩
    · simp [hk.checked]
    · rw [Checker.issuesOf_concat, if_neg hnew, List.append_nil, ← hk.issues]
      rfl
    · rw [Checker.reported_concat, if_neg hnew, List.append_nil]
      exact hk.seen

/-- Usages are judged one by one. -/
theorem checkAll_append (c : Checker) (k : Collector) (us vs : List Usage) :
    checkAll c k (us ++ vs) = (checkAll c k us).bind fun k' => checkAll c k' vs := by
  induction us generalizing k with
  | nil => rfl
  | cons u us ih =>
    rw [List.cons_append, checkAll, checkAll]
    cases check c k u with
    | none => rfl
    | some r => exact ih r.1

theorem checkAll_concat {c : Checker} {k k' l : Collector} {us : List Usage} {u : Usage} {recorded : Bool}
    (hall : checkAll c k us = some k') (hcheck : check c k' u = some (l, recorded)) :
    checkAll c k (us ++ [u]) = some l := by
  rw [checkAll_append, hall, Option.bind_some, checkAll, hcheck]
  rfl

/-- A collector whose source never breaks down holds what it should after any usages. -/
theorem checkAll_holds {c : Checker} (hc : c.Steady) (us : List Usage) :
    ∃ k, checkAll c {} us = some k ∧ Holds c us k := by
  induction us using List.reverseRecOn with
  | nil => exact ⟨{}, rfl, holds_nil c⟩
  | append_singleton us u ih =>
    obtain ⟨k, hall, hk⟩ := ih
    obtain ⟨k', hcheck, hk'⟩ := check_of_holds hk (hc.breaks u.key)
    exact ⟨k', checkAll_concat hall hcheck, hk'⟩

/-- Every usage counts. The issues are, in order, the first usages of a key at a place among those
whose level is not accepted; the names that are remembered are those of the issues; and the answer to
one more usage says whether it became an issue, which it does if it is a first one in that sense. -/
theorem recorded_iff_first (c : Checker) (hc : c.Steady) (us : List Usage) :
    ∃ k, checkAll c {} us = some k ∧ k.checked = us.length ∧
      k.issues = (firstOf Usage.spot []
        (us.filter fun u => !c.threshold.accepts (c.level u.key))).map c.issueOf ∧
      (∀ n, n ∈ k.seen ↔ ∃ i ∈ k.issues, name i.key i.location = n) ∧
      ∀ u, ∃ k' recorded, check c k u = some (k', recorded) ∧ checkAll c {} (us ++ [u]) = some k' ∧
        k'.issues = k.issues ++ (if recorded then [c.issueOf u] else []) ∧
        (recorded = true ↔ c.threshold.accepts (c.level u.key) = false ∧
          ∀ v ∈ us, c.threshold.accepts (c.level v.key) = false → v.spot ≠ u.spot) := by
  obtain ⟨k, hall, hk⟩ := checkAll_holds hc us
  refine ⟨k, hall, hk.checked, hk.issues, hk.mem_seen, fun u => ?_⟩
  obtain ⟨k', hcheck, hk'⟩ := check_of_holds hk (hc.breaks u.key)
  refine ⟨k', c.isNew us u, hcheck, checkAll_concat hall hcheck, ?_, Checker.isNew_iff⟩
  rw [hk'.issues, hk.issues, Checker.issuesOf_concat]

/-- A key that is used twice at one place and once more at another is recorded twice. -/
theorem recorded_iff_first_map :
    ∃ k, checkAll (.unaware .low) {}
        [.ofBuiltin "Map" ⟨1, 1⟩, .ofBuiltin "Map" ⟨1, 1⟩, .ofBuiltin "Map" ⟨2, 1⟩] = some k ∧
      k.checked = 3 ∧ k.issues.map Issue.location = [some ⟨1, 1⟩, some ⟨2, 1⟩] ∧
      ∃ k', check (.unaware .low) k (.ofBuiltin "Map" ⟨2, 1⟩) = some (k', false) ∧
        k'.issues = k.issues := by
  obtain ⟨k, hall, hchecked, hissues, -, hnext⟩ := recorded_iff_first (.unaware .low)
    (Checker.unaware_steady .low)
    [.ofBuiltin "Map" ⟨1, 1⟩, .ofBuiltin "Map" ⟨1, 1⟩, .ofBuiltin "Map" ⟨2, 1⟩]
  obtain ⟨k', recorded, hcheck, -, hissues', hrecorded⟩ := hnext (.ofBuiltin "Map" ⟨2, 1⟩)
  have hold : recorded = false := by
    rw [Bool.eq_false_iff, Ne, hrecorded]
    rintro ⟨-, h⟩
    exact h (.ofBuiltin "Map" ⟨2, 1⟩) (by simp) (by decide +kernel) rfl
  subst hold
  refine ⟨k, hall, hchecked, ?_, k', hcheck, by simpa using hissues'⟩
  rw [hissues]
  decide +kernel

end Collector

end BaselineAudit
