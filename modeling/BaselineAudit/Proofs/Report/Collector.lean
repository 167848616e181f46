import BaselineAudit.Audit.Collector
import BaselineAudit.Proofs.Report.Distinct
import Std.Data.String.ToNat

/-!
# What a collector finds

A collector remembers usages by rendered names and stops for good when the source of statuses breaks
down. Neither shows in its result:

* `Collector.name_injective`: a name stands for one key at one place.
* `Checker.judge_eq`: the issues are the usages whose key is not accepted, each key once at a place,
  in order; every usage counts as checked; and there is no report if the source breaks down for one of
  the keys.
-/

namespace BaselineAudit

/-! ## Names -/

/-- A text is split at the last of a character in one way. -/
theorem append_cons_inj_of_notMem_right {c : Char} {x y s t : List Char} (hs : c ∉ s) (ht : c ∉ t)
    (h : x ++ c :: s = y ++ c :: t) : x = y ∧ s = t := by
  have hr : s.reverse ++ c :: x.reverse = t.reverse ++ c :: y.reverse := by
    simpa using congrArg List.reverse h
  rcases List.append_eq_append_iff.mp hr with ⟨u, hu, hv⟩ | ⟨u, hu, hv⟩ <;> cases u with
  | nil => simp_all
  | cons d u =>
    obtain ⟨rfl, -⟩ := List.cons.inj hv
    have := congrArg (c ∈ ·) hu
    simp_all

theorem notMem_toList_repr {c : Char} (n : Nat) (hc : c.isDigit = false) : c ∉ n.repr.toList := by
  intro h
  rw [Nat.toList_repr] at h
  have := Nat.isDigit_of_mem_toDigits (by decide) (by decide) h
  rw [hc] at this
  exact Bool.false_ne_true this

theorem repr_injective {m n : Nat} (h : m.repr = n.repr) : m = n := by
  have := congrArg String.toNat? h
  rw [Nat.toNat?_repr, Nat.toNat?_repr] at this
  exact Option.some.inj this

namespace Collector

/-- What stands in a name behind the key and the `@`. -/
def placeName : Option Location → String
  | some l => l.line.repr ++ ":" ++ l.column.repr
  | none => "undefined:undefined"

theorem name_eq (key : String) (l : Option Location) : name key l = key ++ "@" ++ placeName l := by
  cases l with
  | none => rw [String.append_assoc]; rfl
  | some l => simp only [name, placeName, String.append_assoc]

theorem toList_placeName_some (l : Location) :
    (placeName (some l)).toList = l.line.repr.toList ++ ':' :: l.column.repr.toList := by
  simp [placeName]

theorem at_notMem_placeName (l : Option Location) : '@' ∉ (placeName l).toList := by
  cases l with
  | none => decide
  | some l =>
    simp only [toList_placeName_some, List.mem_append, List.mem_cons, not_or]
    exact ⟨notMem_toList_repr _ rfl, by decide, notMem_toList_repr _ rfl⟩

theorem placeName_injective {l m : Option Location} (h : placeName l = placeName m) : l = m := by
  have split : ∀ {a b : Location}, placeName (some a) = placeName (some b) → a = b := by
    intro a b h
    have h := congrArg String.toList h
    rw [toList_placeName_some, toList_placeName_some] at h
    obtain ⟨h₁, h₂⟩ := append_cons_inj_of_notMem_right (notMem_toList_repr _ rfl)
      (notMem_toList_repr _ rfl) h
    have hl := repr_injective (String.toList_injective h₁)
    have hc := repr_injective (String.toList_injective h₂)
    cases a; cases b; simp_all
  have apart : ∀ a : Location, placeName (some a) ≠ placeName none := by
    intro a h
    -- the letters of `undefined` are no digits
    have hu : 'u' ∈ (placeName (some a)).toList := by rw [h]; decide
    simp only [toList_placeName_some, List.mem_append, List.mem_cons] at hu
    rcases hu with hu | hu | hu
    · exact notMem_toList_repr _ rfl hu
    · exact absurd hu (by decide)
    · exact notMem_toList_repr _ rfl hu
  match l, m with
  | none, none => rfl
  | some a, none => exact absurd h (apart a)
  | none, some b => exact absurd h.symm (apart b)
  | some a, some b => rw [split h]

/-- A name stands for one key at one place. -/
theorem name_injective {key key' : String} {l l' : Option Location}
    (h : name key l = name key' l') : key = key' ∧ l = l' := by
  have hl := congrArg String.toList h
  simp only [name_eq, String.toList_append] at hl
  obtain ⟨h₁, h₂⟩ := append_cons_inj_of_notMem_right (at_notMem_placeName l)
    (at_notMem_placeName l') (by simpa using hl)
  exact ⟨String.toList_injective h₁, placeName_injective (String.toList_injective h₂)⟩

/-- Names are the same for the same key at the same place only, also if a key looks like one with a
place behind it. -/
theorem name_eq_name_iff (key key' : String) (l l' : Option Location) :
    name key l = name key' l' ↔ key = key' ∧ l = l' := by
  constructor
  · exact name_injective
  · rintro ⟨rfl, rfl⟩
    rfl

/-- A key without a place against a key that ends in what the place is rendered as. -/
example : name "a@1:2" none ≠ name "a" (some ⟨1, 2⟩) := by decide

end Collector

/-! ## What a checker knows -/

/-- What two usages share if one of them repeats the other: the key and the place. -/
def Usage.spot (u : Usage) : String × Option Location := (u.key, u.location)

/-- The key and the place of an issue. -/
def Issue.spot (i : Issue) : String × Option Location := (i.key, i.location)

namespace Checker

/-- The status of a key, if the source has one. -/
def status? (c : Checker) (key : String) : Option Status :=
  match c.ask key with
  | .status s => some s
  | _ => none

/-- The source breaks down when it is asked for a key. -/
def breaks (c : Checker) (key : String) : Bool :=
  match c.ask key with
  | .breakdown => true
  | _ => false

/-- The level of a key. Without a status it is `unsupported`. -/
def level (c : Checker) (key : String) : Level := ((c.status? key).map (·.level)).getD .unsupported

/-- Usages of a key pass. -/
def accepts (c : Checker) (key : String) : Bool := c.threshold.accepts (c.level key)

/-- The issue that a usage is, unless it passes. -/
def issueOf (c : Checker) (u : Usage) : Issue := Collector.issue c u (c.status? u.key)

/-- The usages of a text that are reported: those that do not pass, each key once at a place. -/
def reported (c : Checker) (us : List Usage) : List Usage :=
  firstOf Usage.spot [] (us.filter fun u => !c.accepts u.key)

/-- The issues of a text. -/
def issuesOf (c : Checker) (us : List Usage) : List Issue := (c.reported us).map c.issueOf

@[simp] theorem issueOf_usage (c : Checker) (u : Usage) : (c.issueOf u).usage = u := rfl

@[simp] theorem issueOf_spot (c : Checker) (u : Usage) : (c.issueOf u).spot = u.spot := rfl

@[simp] theorem issueOf_level (c : Checker) (u : Usage) : (c.issueOf u).level = c.level u.key := rfl

end Checker

/-! ## Judging usages -/

namespace Collector

/-- Judging a usage does not depend on what was found before, apart from the names. -/
theorem check_eq (c : Checker) (k : Collector) (u : Usage) :
    check c k u = if c.breaks u.key then none else some (record c k (c.issueOf u)) := by
  unfold check Checker.breaks Checker.issueOf Checker.status?
  cases c.ask u.key <;> rfl

/-- The names of some keys at places. -/
def names (spots : List (String × Option Location)) : List String :=
  spots.map fun s => name s.1 s.2

theorem contains_names (spots : List (String × Option Location)) (s : String × Option Location) :
    (names spots).contains (name s.1 s.2) = decide (s ∈ spots) := by
  rw [Bool.eq_iff_iff, List.contains_iff_mem, decide_eq_true_eq, names, List.mem_map]
  constructor
  · rintro ⟨t, ht, h⟩
    obtain ⟨h₁, h₂⟩ := name_injective h
    rwa [show s = t from Prod.ext h₁.symm h₂.symm]
  · exact fun h => ⟨s, h, rfl⟩

/-- What a collector records of a usage, by the keys and places that it remembers, and what it says
about it. -/
theorem record_issueOf (c : Checker) {k : Collector} {spots : List (String × Option Location)}
    (hk : k.seen = names spots) (u : Usage) :
    record c k (c.issueOf u) =
      if c.accepts u.key = true ∨ u.spot ∈ spots then ({ k with checked := k.checked + 1 }, false)
      else (⟨names (u.spot :: spots), c.issueOf u :: k.found, k.checked + 1⟩, true) := by
  have hn : k.seen.contains (name (c.issueOf u).key (c.issueOf u).location) =
      decide (u.spot ∈ spots) := by
    rw [hk]; exact contains_names spots u.spot
  have hl : c.threshold.accepts (c.issueOf u).level = c.accepts u.key := rfl
  unfold record
  simp only [hl, hn]
  by_cases ha : c.accepts u.key = true
  · rw [if_pos ha, if_pos (.inl ha)]
  · rw [if_neg ha]
    by_cases hs : u.spot ∈ spots
    · rw [if_pos (decide_eq_true hs), if_pos (.inr hs)]
    · rw [if_neg (by simpa using hs), if_neg (by simp [ha, hs]), hk]
      rfl

/-- Judging usages one after the other, from a collector that remembers some keys at places. -/
theorem checkAll_eq (c : Checker) (us : List Usage) (k : Collector)
    (spots : List (String × Option Location)) (hk : k.seen = names spots) :
    ∃ seen, checkAll c k us =
      if us.any fun u => c.breaks u.key then none
      else some ⟨seen,
        ((firstOf Usage.spot spots (us.filter fun u => !c.accepts u.key)).map c.issueOf).reverse
          ++ k.found, k.checked + us.length⟩ := by
  induction us generalizing k spots with
  | nil => exact ⟨k.seen, by simp [checkAll, firstOf]⟩
  | cons u us ih =>
    rw [checkAll, check_eq]
    by_cases hb : c.breaks u.key = true
    · exact ⟨[], by simp [hb]⟩
    · have hr := record_issueOf c hk u
      simp only [hb, List.any_cons, Bool.false_or, Bool.false_eq_true, if_false]
      by_cases ha : c.accepts u.key = true
      · obtain ⟨seen, h⟩ := ih { k with checked := k.checked + 1 } spots hk
        rw [if_pos (.inl ha)] at hr
        refine ⟨seen, ?_⟩
        rw [hr, h, List.filter_cons_of_neg (by simp [ha]), List.length_cons]
        simp only [Nat.add_right_comm, Nat.add_assoc]
      · rw [List.filter_cons_of_pos (by simp [ha])]
        by_cases hs : u.spot ∈ spots
        · obtain ⟨seen, h⟩ := ih { k with checked := k.checked + 1 } spots hk
          rw [if_pos (.inr hs)] at hr
          refine ⟨seen, ?_⟩
          rw [hr, h, firstOf_cons_of_mem _ hs, List.length_cons]
          simp only [Nat.add_right_comm, Nat.add_assoc]
        · rw [if_neg (by simp [ha, hs])] at hr
          obtain ⟨seen, h⟩ := ih ⟨names (u.spot :: spots), c.issueOf u :: k.found, k.checked + 1⟩
            (u.spot :: spots) rfl
          refine ⟨seen, ?_⟩
          rw [hr, h, firstOf_cons_of_notMem _ hs, List.length_cons]
          simp [Nat.add_right_comm, Nat.add_assoc]

end Collector

namespace Checker

/-- The report on the usages of a text. -/
def reportOn (c : Checker) (language : Language) (us : List Usage) : Report :=
  .ofIssues language c.threshold (c.issuesOf us) us.length

/-- A text has a report unless the source breaks down for the key of one of its usages. -/
theorem judge_eq (c : Checker) (language : Language) (us : List Usage) :
    c.judge language us =
      if us.any fun u => c.breaks u.key then none else some (c.reportOn language us) := by
  obtain ⟨seen, h⟩ := Collector.checkAll_eq c us {} [] rfl
  rw [judge, h]
  by_cases hb : (us.any fun u => c.breaks u.key) = true
  · rw [if_pos hb, if_pos hb]; rfl
  · rw [if_neg hb, if_neg hb]
    simp [Collector.report, Collector.issues, reportOn, issuesOf, reported]

/-- No key is reported twice at one place. -/
theorem issuesOf_nodup (c : Checker) (us : List Usage) : ((c.issuesOf us).map Issue.spot).Nodup := by
  rw [issuesOf, List.map_map]
  exact firstOf_nodup Usage.spot [] _

/-- What is reported of a text is one of its usages, and does not pass. -/
theorem mem_reported {c : Checker} {us : List Usage} {u : Usage} (h : u ∈ c.reported us) :
    u ∈ us ∧ c.accepts u.key = false := by
  have := List.mem_filter.mp (mem_of_mem_firstOf h)
  exact ⟨this.1, by simpa using this.2⟩

/-- Every issue is that of a usage that does not pass. -/
theorem mem_issuesOf {c : Checker} {us : List Usage} {i : Issue} (h : i ∈ c.issuesOf us) :
    ∃ u ∈ us, c.accepts u.key = false ∧ i = c.issueOf u := by
  obtain ⟨u, hu, rfl⟩ := List.mem_map.mp h
  obtain ⟨h₁, h₂⟩ := mem_reported hu
  exact ⟨u, h₁, h₂, rfl⟩

end Checker

end BaselineAudit
