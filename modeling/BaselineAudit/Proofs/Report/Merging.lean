import BaselineAudit.Proofs.Report.Distinct
import Mathlib.Algebra.GroupWithZero.Nat

/-!
# Merging in stages

Parts can be merged all at once, or some of them first and the results later.

* `Report.Flattens`: a part that is a merge may be replaced by what was merged into it. Both ways of
  merging have this (`Report.flattens_merge`, `Report.flattens_mergeDistinct`).
* `Report.Flattens.reports`: so any stages, also inside each other, give what their parts give.
* `firstOf_eq_firstOccurrences`: which items are first ones can be said without going through the list.
* `Report.merge_in_stages`: the laws of merging together.
-/

namespace BaselineAudit

/-! ## First occurrences -/

section FirstOf

variable {α β : Type} [DecidableEq β]

/-- The items that have no item with the same view in front of them. -/
def firstOccurrences (f : α → β) (l : List α) : List α :=
  (l.zipIdx.filter fun e => f e.1 ∉ (l.take e.2).map f).map Prod.fst

theorem firstOf_eq_firstOccurrences (f : α → β) (l : List α) :
    firstOf f [] l = firstOccurrences f l := by
  -- what was seen is what stands in front
  suffices H : ∀ front rest : List α, firstOf f (front.map f) rest =
      ((rest.zipIdx front.length).filter fun e => f e.1 ∉ ((front ++ rest).take e.2).map f).map
        Prod.fst from H [] l
  intro front rest
  induction rest generalizing front with
  | nil => rfl
  | cons a rest ih =>
    have hfront : (front ++ a :: rest).take front.length = front := List.take_left
    have hnext := ih (front ++ [a])
    rw [List.append_assoc, List.singleton_append, List.length_append, List.length_singleton] at hnext
    rw [List.zipIdx_cons]
    by_cases ha : f a ∈ front.map f
    · rw [firstOf_cons_of_mem rest ha, List.filter_cons_of_neg (by simpa [hfront] using ha), ← hnext]
      refine firstOf_congr rest fun b => ?_
      rw [List.map_append, List.mem_append, List.map_singleton, List.mem_singleton]
      exact ⟨.inl, fun hb => hb.elim id fun hb => hb ▸ ha⟩
    · rw [firstOf_cons_of_notMem rest ha, List.filter_cons_of_pos (by simpa [hfront] using ha),
        List.map_cons, ← hnext]
      refine congrArg (a :: ·) (firstOf_congr rest fun b => ?_)
      simp [or_comm]

/-- Items that were dropped would have been dropped later. -/
theorem firstOf_firstOf {f : α → β} {s seen : List β} (h : ∀ b ∈ s, b ∈ seen) (l : List α) :
    firstOf f seen (firstOf f s l) = firstOf f seen l := by
  induction l generalizing s seen with
  | nil => rfl
  | cons a l ih =>
    by_cases hs : f a ∈ s
    · rw [firstOf_cons_of_mem l hs, firstOf_cons_of_mem l (h _ hs), ih h]
    · rw [firstOf_cons_of_notMem l hs]
      by_cases hseen : f a ∈ seen
      · rw [firstOf_cons_of_mem _ hseen, firstOf_cons_of_mem _ hseen]
        exact ih (List.forall_mem_cons.mpr ⟨hseen, h⟩)
      · rw [firstOf_cons_of_notMem _ hseen, firstOf_cons_of_notMem _ hseen, ih]
        exact fun b hb => (List.mem_cons.mp hb).elim (· ▸ List.mem_cons_self)
          fun hb => List.mem_cons_of_mem _ (h b hb)

/-- First items may be taken inside a list before they are taken of the whole. -/
theorem firstOf_append_firstOf (f : α → β) (front l back : List α) :
    firstOf f [] (front ++ firstOf f [] l ++ back) = firstOf f [] (front ++ l ++ back) := by
  rw [firstOf_append, firstOf_append, firstOf_append _ _ (front ++ l), firstOf_append _ _ front l,
    firstOf_firstOf (by simp)]
  congr 1
  refine firstOf_congr back fun b => ?_
  simp only [List.map_append, List.mem_append, mem_map_firstOf, List.not_mem_nil, not_false_eq_true,
    and_true]

/-- Items that stand there already add nothing. -/
theorem firstOf_append_self (f : α → β) (l : List α) : firstOf f [] (l ++ l) = firstOf f [] l := by
  have hnone : firstOf f (l.map f ++ []) l = [] := by
    refine List.eq_nil_iff_forall_not_mem.mpr fun a ha => notMem_seen_of_mem_firstOf ha ?_
    exact List.mem_append_left _ (List.mem_map_of_mem (mem_of_mem_firstOf ha))
  rw [firstOf_append, hnone, List.append_nil]

end FirstOf

namespace Report

/-! ## One merge inside another -/

theorem totalChecked_cons (p : Report) (ps : List Report) :
    totalChecked (p :: ps) = p.summary.checked + totalChecked ps := rfl

theorem totalChecked_append (ps qs : List Report) :
    totalChecked (ps ++ qs) = totalChecked ps + totalChecked qs := by
  induction ps with
  | nil => exact (Nat.zero_add _).symm
  | cons p ps ih => rw [List.cons_append, totalChecked_cons, totalChecked_cons, ih, Nat.add_assoc]

@[simp] theorem issues_merge (language : Language) (threshold : Threshold) (parts : List Report) :
    (merge language threshold parts).issues = parts.flatMap (·.issues) := rfl

@[simp] theorem issues_mergeDistinct (language : Language) (threshold : Threshold)
    (parts : List Report) : (mergeDistinct language threshold parts).issues =
      firstOf identity [] (parts.flatMap (·.issues)) := distinctFrom_eq_firstOf _ _

theorem merge_congr {language : Language} {threshold : Threshold} {ps qs : List Report}
    (hissues : ps.flatMap (·.issues) = qs.flatMap (·.issues))
    (hchecked : totalChecked ps = totalChecked qs) :
    merge language threshold ps = merge language threshold qs := by
  rw [merge, merge, hissues, hchecked]

/-- Merging without repetition looks at nothing but first issues and counts. -/
theorem mergeDistinct_congr {language : Language} {threshold : Threshold} {ps qs : List Report}
    (hissues : firstOf identity [] (ps.flatMap (·.issues)) =
      firstOf identity [] (qs.flatMap (·.issues)))
    (hchecked : totalChecked ps = totalChecked qs) :
    mergeDistinct language threshold ps = mergeDistinct language threshold qs := by
  rw [mergeDistinct, mergeDistinct, distinctFrom_eq_firstOf, distinctFrom_eq_firstOf, hissues, hchecked]

/-- The count of usages does not tell a merge from what was merged. -/
theorem totalChecked_middle (front inner back : List Report) {p : Report}
    (h : p.summary.checked = totalChecked inner) :
    totalChecked (front ++ p :: back) = totalChecked (front ++ inner ++ back) := by
  rw [totalChecked_append, totalChecked_cons, h, totalChecked_append, totalChecked_append,
    Nat.add_assoc]

/-- A part that is a merge itself may be replaced by what was merged, whatever language and threshold
it has. -/
def Flattens (join : Language → Threshold → List Report → Report) : Prop :=
  ∀ language threshold language' threshold' front inner back,
    join language threshold (front ++ join language' threshold' inner :: back) =
      join language threshold (front ++ inner ++ back)

theorem flattens_merge : Flattens merge := by
  intro language threshold language' threshold' front inner back
  refine merge_congr ?_ (totalChecked_middle front inner back rfl)
  simp

theorem flattens_mergeDistinct : Flattens mergeDistinct := by
  intro language threshold language' threshold' front inner back
  refine mergeDistinct_congr ?_ (totalChecked_middle front inner back rfl)
  simpa using firstOf_append_firstOf identity (front.flatMap (·.issues)) (inner.flatMap (·.issues))
    (back.flatMap (·.issues))

/-! ## Stages -/

/-- A report that is merged in stages: a part, or the merge of what other stages give. If all of these
are parts, it is the merge of parts that stand in a row. -/
inductive Staged where
  | part (r : Report)
  | stage (language : Language) (threshold : Threshold) (inner : List Staged)

namespace Staged

mutual

/-- The parts of a report, from first to last. -/
def parts : Staged → List Report
  | part r => [r]
  | stage _ _ inner => allParts inner

/-- The parts of several reports. -/
def allParts : List Staged → List Report
  | [] => []
  | s :: rest => parts s ++ allParts rest

end

mutual

/-- The report, where each stage is merged with `join`. -/
def report (join : Language → Threshold → List Report → Report) : Staged → Report
  | part r => r
  | stage language threshold inner => join language threshold (reports join inner)

/-- The reports of several stages. -/
def reports (join : Language → Threshold → List Report → Report) : List Staged → List Report
  | [] => []
  | s :: rest => report join s :: reports join rest

end

end Staged

namespace Flattens

variable {join : Language → Threshold → List Report → Report}

mutual

/-- A stage may be replaced by its parts. -/
theorem report (h : Flattens join) (language : Language) (threshold : Threshold) (s : Staged)
    (front back : List Report) :
    join language threshold (front ++ s.report join :: back) =
      join language threshold (front ++ s.parts ++ back) := by
  match s with
  | .part r => simp [Staged.report, Staged.parts]
  | .stage language' threshold' inner =>
    rw [Staged.report, h, Staged.parts]
    exact h.reports language threshold inner front back

/-- Stages may be replaced by their parts. -/
theorem reports (h : Flattens join) (language : Language) (threshold : Threshold)
    (stages : List Staged) (front back : List Report) :
    join language threshold (front ++ Staged.reports join stages ++ back) =
      join language threshold (front ++ Staged.allParts stages ++ back) := by
  match stages with
  | [] => rfl
  | s :: rest =>
    rw [Staged.reports, Staged.allParts, List.append_assoc, List.cons_append,
      h.report language threshold s front, ← List.append_assoc,
      h.reports language threshold rest (front ++ s.parts) back]
    simp only [List.append_assoc]

end

end Flattens

/-- Merging puts the issues of the parts one behind the other and adds up their counts. Merging in
stages gives what merging all parts at once gives. Merging without repetition keeps the first issue of
each kind, key and location, and counts all usages. It makes no difference to it whether its parts were
merged before, with or without repetition, so doing it twice is doing it once; and parts that come a
second time add no issue. -/
theorem merge_in_stages (language : Language) (threshold : Threshold) (stages : List Staged)
    (parts : List Report) :
    (merge language threshold parts).issues = parts.flatMap (·.issues) ∧
    (merge language threshold parts).summary.checked = (parts.map (·.summary.checked)).sum ∧
    merge language threshold (Staged.reports merge stages) =
      merge language threshold (Staged.allParts stages) ∧
    mergeDistinct language threshold (Staged.reports mergeDistinct stages) =
      mergeDistinct language threshold (Staged.allParts stages) ∧
    (mergeDistinct language threshold parts).issues =
      firstOccurrences (fun i => (i.kind, i.key, i.location))
        (merge language threshold parts).issues ∧
    (mergeDistinct language threshold parts).summary.checked =
      (merge language threshold parts).summary.checked ∧
    (∀ language' threshold', mergeDistinct language threshold [merge language' threshold' parts] =
      mergeDistinct language threshold parts) ∧
    (∀ language' threshold',
      mergeDistinct language threshold [mergeDistinct language' threshold' parts] =
        mergeDistinct language threshold parts) ∧
    (mergeDistinct language threshold (parts ++ parts)).issues =
      (mergeDistinct language threshold parts).issues := by
  refine ⟨rfl, rfl, ?_, ?_, ?_, rfl, ?_, ?_, ?_⟩
  · simpa using flattens_merge.reports language threshold stages [] []
  · simpa using flattens_mergeDistinct.reports language threshold stages [] []
  · rw [issues_mergeDistinct, issues_merge]
    exact firstOf_eq_firstOccurrences identity _
  · intro language' threshold'
    exact mergeDistinct_congr (by simp) (Nat.add_zero _)
  · intro language' threshold'
    simpa using flattens_mergeDistinct language threshold language' threshold' [] parts []
  · rw [issues_mergeDistinct, issues_mergeDistinct, List.flatMap_append, firstOf_append_self]

end Report

end BaselineAudit
