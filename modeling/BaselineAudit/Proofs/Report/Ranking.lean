import BaselineAudit.Report.Score
import Mathlib.Data.Prod.Lex
import Mathlib.Order.Nat

/-!
# The order of scored issues

A score lists its issues in the order of their ranks, and those of one rank in the order of the
report.

* `ScoredIssue.rank`: the weight, of which the greater comes first, then line and column.
* `filter_mergeSort`: sorting keeps the order among items that compare equal.
* `eq_filter_append_filter`: a list in which nothing of one kind stands behind the other kind is
  cut in two by kind.
* `Score.ofReport_ranked`: the order, and what the filters show of it.
-/

namespace BaselineAudit

/-! ## Sorting -/

section Sorting

variable {α : Type}

/-- Sorting keeps the order among items that compare equal. -/
theorem filter_mergeSort {le : α → α → Bool}
    (trans : ∀ a b c, le a b = true → le b c = true → le a c = true)
    (total : ∀ a b, (le a b || le b a) = true) {p : α → Bool}
    (hp : ∀ a b, p a = true → p b = true → le a b = true) (l : List α) :
    (l.mergeSort le).filter p = l.filter p := by
  have hsorted : (l.filter p).Pairwise fun a b => le a b = true :=
    List.pairwise_of_forall_mem_list fun a ha b hb =>
      hp a b (List.mem_filter.mp ha).2 (List.mem_filter.mp hb).2
  have hsub : (l.filter p).Sublist (l.mergeSort le) :=
    List.sublist_mergeSort trans total hsorted List.filter_sublist
  have hkept : (l.filter p).Sublist ((l.mergeSort le).filter p) := by
    simpa using hsub.filter p
  refine (hkept.eq_of_length ?_).symm
  exact ((List.mergeSort_perm l le).filter p).length_eq.symm

/-- A list in which nothing with the property stands behind something without it. -/
theorem eq_filter_append_filter {p : α → Bool} {l : List α}
    (h : l.Pairwise fun a b => p b = true → p a = true) :
    l = l.filter p ++ l.filter fun a => !p a := by
  induction l with
  | nil => rfl
  | cons a l ih =>
    obtain ⟨ha, hl⟩ := List.pairwise_cons.mp h
    by_cases hp : p a = true
    · rw [List.filter_cons_of_pos hp, List.filter_cons_of_neg (by simp [hp]), List.cons_append, ← ih hl]
    · have hnone : l.filter p = [] := List.filter_eq_nil_iff.mpr fun b hb hpb => hp (ha b hb hpb)
      have hall : l.filter (fun a => !p a) = l := by
        refine List.filter_eq_self.mpr fun b hb => ?_
        simpa using fun hpb => hp (ha b hb hpb)
      rw [List.filter_cons_of_neg hp, hnone, List.filter_cons_of_pos (by simp [hp]), hall]
      rfl

end Sorting

/-! ## Ranks -/

namespace ScoredIssue

/-- What issues are ordered by: the weight, where the greater comes first, then line and column. An
issue without a location counts as one at 0:0. -/
def rank (s : ScoredIssue) : ℕᵒᵈ ×ₗ ℕ ×ₗ ℕ :=
  toLex (OrderDual.toDual s.severity.weight,
    toLex ((s.issue.location.map (·.line)).getD 0, (s.issue.location.map (·.column)).getD 0))

theorem precedes_iff {a b : ScoredIssue} : precedes a b = true ↔ a.rank ≤ b.rank := by
  have hplace : ∀ s : ScoredIssue, s.place =
      ((s.issue.location.map (·.line)).getD 0, (s.issue.location.map (·.column)).getD 0) := by
    intro s
    unfold place
    cases s.issue.location <;> rfl
  simp only [precedes, hplace, rank, Prod.Lex.toLex_le_toLex, OrderDual.toDual_lt_toDual,
    EmbeddingLike.apply_eq_iff_eq, Bool.or_eq_true, Bool.and_eq_true, decide_eq_true_eq, beq_iff_eq]

theorem precedes_trans (a b c : ScoredIssue) (hab : precedes a b = true) (hbc : precedes b c = true) :
    precedes a c = true :=
  precedes_iff.mpr (le_trans (precedes_iff.mp hab) (precedes_iff.mp hbc))

theorem precedes_total (a b : ScoredIssue) : (precedes a b || precedes b a) = true := by
  rw [Bool.or_eq_true, precedes_iff, precedes_iff]
  exact le_total a.rank b.rank

/-- Of two issues in order, the first one is critical if the second one is. -/
theorem critical_of_rank_le {a b : ScoredIssue} (h : a.rank ≤ b.rank) (hb : b.severity = .critical) :
    a.severity = .critical := by
  have hweight : b.severity.weight ≤ a.severity.weight := by
    rcases Prod.Lex.toLex_le_toLex.mp h with hlt | ⟨heq, -⟩
    · exact le_of_lt hlt
    · exact le_of_eq (OrderDual.toDual_inj.mp heq).symm
  cases ha : a.severity with
  | critical => rfl
  | moderate =>
    rw [ha, hb] at hweight
    exact absurd hweight (by decide)

end ScoredIssue

namespace Score

open ScoredIssue

/-! ## The issues of a score -/

theorem issues_perm (r : Report) : (ofReport r).issues.Perm (r.issues.map .of) :=
  List.mergeSort_perm _ _

theorem mem_issues {r : Report} {s : ScoredIssue} :
    s ∈ (ofReport r).issues ↔ ∃ i ∈ r.issues, .of i = s :=
  (issues_perm r).mem_iff.trans List.mem_map

theorem issues_pairwise (r : Report) : (ofReport r).issues.Pairwise fun a b => a.rank ≤ b.rank :=
  (List.pairwise_mergeSort precedes_trans precedes_total _).imp precedes_iff.mp

/-- Issues of one rank stand in the order of the report. -/
theorem filter_issues (r : Report) (k : ℕᵒᵈ ×ₗ ℕ ×ₗ ℕ) :
    (ofReport r).issues.filter (·.rank = k) = (r.issues.map .of).filter (·.rank = k) := by
  refine filter_mergeSort precedes_trans precedes_total (fun a b ha hb => ?_) _
  rw [precedes_iff, of_decide_eq_true ha, of_decide_eq_true hb]

theorem eq_of_of_mem {r : Report} {s : ScoredIssue} (h : s ∈ (ofReport r).issues) :
    s = .of s.issue := by
  obtain ⟨i, -, rfl⟩ := mem_issues.mp h
  rfl

/-- The critical issues stand in front of the others. -/
theorem filtered_all (r : Report) :
    (ofReport r).filtered .all = (ofReport r).filtered .errors ++ (ofReport r).filtered .warnings := by
  have hall : (ofReport r).filtered .all = (ofReport r).issues :=
    List.filter_eq_self.mpr fun _ _ => rfl
  have hwarnings : (fun s : ScoredIssue => SeverityFilter.warnings.accepts s.severity) =
      fun s => !SeverityFilter.errors.accepts s.severity := by
    funext s
    cases s.severity <;> rfl
  rw [hall, filtered, filtered, hwarnings]
  refine eq_filter_append_filter ((issues_pairwise r).imp fun {a b} hab hb => ?_)
  exact beq_iff_eq.mpr (critical_of_rank_le hab (beq_iff_eq.mp hb))

/-- The issues of a score are those of the report, each with its severity and weight. They are sorted
by weight, where the greater comes first, then by line and column, and those that agree in all three
stand in the order of the report. All of them are the errors followed by the warnings, and there are
as many of each as the score says. -/
theorem ofReport_ranked (r : Report) :
    ((ofReport r).issues.map (·.issue)).Perm r.issues ∧
    (∀ s ∈ (ofReport r).issues,
      s.severity = (if s.issue.level = .unsupported then .critical else .moderate) ∧
      s.severity.weight = (if s.issue.level = .unsupported then 2 else 1) ∧
      s.toJson = .object (s.issue.fields ++
        if s.issue.level = .unsupported then
          [("severity", .string "critical"), ("score", .natural 2)]
        else [("severity", .string "moderate"), ("score", .natural 1)])) ∧
    (ofReport r).issues.Pairwise (fun a b => a.rank ≤ b.rank) ∧
    (∀ k, ((ofReport r).issues.filter (·.rank = k)).map (·.issue) =
      r.issues.filter fun i => (ScoredIssue.of i).rank = k) ∧
    (ofReport r).filtered .all =
      (ofReport r).filtered .errors ++ (ofReport r).filtered .warnings ∧
    ((ofReport r).filtered .errors).length = (ofReport r).errors ∧
    ((ofReport r).filtered .warnings).length = (ofReport r).warnings := by
  refine ⟨?_, fun s hs => ?_, issues_pairwise r, fun k => ?_, filtered_all r, ?_, ?_⟩
  · have h := (issues_perm r).map (·.issue)
    rwa [List.map_map, show (·.issue) ∘ ScoredIssue.of = id from rfl, List.map_id] at h
  · have hseverity : s.severity = .of s.issue := congrArg severity (eq_of_of_mem hs)
    rw [ScoredIssue.toJson, hseverity, Severity.of]
    refine ⟨rfl, ?_, ?_⟩ <;> split <;> rfl
  · rw [filter_issues, List.filter_map, List.map_map]
    exact List.map_id _
  · exact List.countP_eq_length_filter.symm
  · exact List.countP_eq_length_filter.symm

end Score

end BaselineAudit
