import BaselineAudit.Report.Basic
import Mathlib.Data.List.Nodup

/-!
# First occurrences

`firstOf f seen l` keeps of the items of `l` that have the same view under `f` the first one, and
none whose view is in `seen`. Collecting issues and merging reports without repetition both do this.

* `firstOf_nodup`: no two items that are kept have the same view.
* `firstOf_filter`: a filter that looks at the view alone may be applied before or after.
* `firstOf_append`, `firstOf_flatMap`: lists that share no view are worked through one by one.
* `firstOf_map`: moving the items does not matter if it keeps apart what was apart.
-/

namespace BaselineAudit

section FirstOf

variable {α β γ : Type} [DecidableEq β] [DecidableEq γ]

/-- The items of a list whose view under `f` is neither in `seen` nor that of an item in front. -/
def firstOf (f : α → β) : (seen : List β) → List α → List α
  | _, [] => []
  | seen, a :: rest => if f a ∈ seen then firstOf f seen rest else a :: firstOf f (f a :: seen) rest

theorem firstOf_cons_of_mem {f : α → β} {seen : List β} {a : α} (l : List α) (h : f a ∈ seen) :
    firstOf f seen (a :: l) = firstOf f seen l := if_pos h

theorem firstOf_cons_of_notMem {f : α → β} {seen : List β} {a : α} (l : List α) (h : f a ∉ seen) :
    firstOf f seen (a :: l) = a :: firstOf f (f a :: seen) l := if_neg h

/-- Only which views were seen matters, not their order or number. -/
theorem firstOf_congr {f : α → β} {s t : List β} (l : List α) (h : ∀ b, b ∈ s ↔ b ∈ t) :
    firstOf f s l = firstOf f t l := by
  induction l generalizing s t with
  | nil => rfl
  | cons a l ih =>
    by_cases ha : f a ∈ s
    · rw [firstOf_cons_of_mem l ha, firstOf_cons_of_mem l ((h _).mp ha), ih h]
    · rw [firstOf_cons_of_notMem l ha, firstOf_cons_of_notMem l (mt (h _).mpr ha)]
      rw [ih (s := f a :: s) (t := f a :: t) fun b => by simp [h b]]

/-- Views that no item has do not matter. -/
theorem firstOf_append_seen {f : α → β} {s t : List β} (l : List α) (h : ∀ a ∈ l, f a ∉ s) :
    firstOf f (s ++ t) l = firstOf f t l := by
  induction l generalizing t with
  | nil => rfl
  | cons a l ih =>
    have hl : ∀ x ∈ l, f x ∉ s := fun x hx => h x (List.mem_cons_of_mem _ hx)
    have ha : f a ∉ s := h a List.mem_cons_self
    by_cases hat : f a ∈ t
    · rw [firstOf_cons_of_mem l (List.mem_append_right s hat), firstOf_cons_of_mem l hat, ih hl]
    · rw [firstOf_cons_of_notMem l (by simp [ha, hat]), firstOf_cons_of_notMem l hat]
      rw [firstOf_congr (t := s ++ f a :: t) l fun b => by simp [or_left_comm], ih hl]

theorem firstOf_sublist (f : α → β) (seen : List β) (l : List α) : (firstOf f seen l).Sublist l := by
  induction l generalizing seen with
  | nil => exact .slnil
  | cons a l ih =>
    by_cases ha : f a ∈ seen
    · rw [firstOf_cons_of_mem l ha]; exact (ih seen).cons a
    · rw [firstOf_cons_of_notMem l ha]; exact (ih _).cons_cons a

theorem mem_of_mem_firstOf {f : α → β} {seen : List β} {l : List α} {a : α}
    (h : a ∈ firstOf f seen l) : a ∈ l := (firstOf_sublist f seen l).subset h

/-- What is kept has no view that was seen before. -/
theorem notMem_seen_of_mem_firstOf {f : α → β} {seen : List β} {l : List α} {a : α}
    (h : a ∈ firstOf f seen l) : f a ∉ seen := by
  induction l generalizing seen with
  | nil => simp [firstOf] at h
  | cons b l ih =>
    by_cases hb : f b ∈ seen
    · rw [firstOf_cons_of_mem l hb] at h; exact ih h
    · rw [firstOf_cons_of_notMem l hb] at h
      rcases List.mem_cons.mp h with rfl | h
      · exact hb
      · exact fun hs => ih h (List.mem_cons_of_mem _ hs)

/-- Every view that was not seen before is that of an item that is kept. -/
theorem mem_map_firstOf {f : α → β} {seen : List β} {l : List α} {b : β} :
    b ∈ (firstOf f seen l).map f ↔ b ∈ l.map f ∧ b ∉ seen := by
  constructor
  · intro h
    obtain ⟨a, ha, rfl⟩ := List.mem_map.mp h
    exact ⟨List.mem_map_of_mem (mem_of_mem_firstOf ha), notMem_seen_of_mem_firstOf ha⟩
  · rintro ⟨h, hb⟩
    induction l generalizing seen with
    | nil => exact absurd h List.not_mem_nil
    | cons a l ih =>
      rw [List.map_cons, List.mem_cons] at h
      by_cases ha : f a ∈ seen
      · rw [firstOf_cons_of_mem l ha]
        rcases h with rfl | h
        · exact absurd ha hb
        · exact ih h hb
      · rw [firstOf_cons_of_notMem l ha, List.map_cons, List.mem_cons]
        by_cases hab : b = f a
        · exact .inl hab
        · exact .inr (ih (h.resolve_left hab) (by simp [hab, hb]))

/-- No two items that are kept have the same view. -/
theorem firstOf_nodup (f : α → β) (seen : List β) (l : List α) :
    ((firstOf f seen l).map f).Nodup := by
  induction l generalizing seen with
  | nil => exact List.nodup_nil
  | cons a l ih =>
    by_cases ha : f a ∈ seen
    · rw [firstOf_cons_of_mem l ha]; exact ih seen
    · rw [firstOf_cons_of_notMem l ha, List.map_cons, List.nodup_cons]
      refine ⟨?_, ih _⟩
      intro h
      obtain ⟨b, hb, hab⟩ := List.mem_map.mp h
      exact notMem_seen_of_mem_firstOf hb (by simp [hab])

/-- Nothing is dropped from a list without repetition. -/
theorem firstOf_eq_self {f : α → β} {seen : List β} {l : List α} (hl : (l.map f).Nodup)
    (hs : ∀ a ∈ l, f a ∉ seen) : firstOf f seen l = l := by
  induction l generalizing seen with
  | nil => rfl
  | cons a l ih =>
    obtain ⟨ha, hl⟩ := List.nodup_cons.mp hl
    rw [firstOf_cons_of_notMem l (hs a List.mem_cons_self), ih hl]
    intro b hb h
    rcases List.mem_cons.mp h with h | h
    · exact ha (List.mem_map.mpr ⟨b, hb, h⟩)
    · exact hs b (List.mem_cons_of_mem _ hb) h

/-- A filter that looks at the view alone may be applied before or after. -/
theorem firstOf_filter {f : α → β} (p : α → Bool) (h : ∀ a b, f a = f b → p a = p b)
    (seen : List β) (l : List α) : firstOf f seen (l.filter p) = (firstOf f seen l).filter p := by
  induction l generalizing seen with
  | nil => rfl
  | cons a l ih =>
    by_cases hp : p a = true
    · rw [List.filter_cons_of_pos hp]
      by_cases ha : f a ∈ seen
      · rw [firstOf_cons_of_mem _ ha, firstOf_cons_of_mem _ ha, ih]
      · rw [firstOf_cons_of_notMem _ ha, firstOf_cons_of_notMem _ ha, List.filter_cons_of_pos hp, ih]
    · rw [List.filter_cons_of_neg hp]
      by_cases ha : f a ∈ seen
      · rw [firstOf_cons_of_mem _ ha, ih]
      · rw [firstOf_cons_of_notMem _ ha, List.filter_cons_of_neg hp, ← ih]
        -- the view of `a` is that of no item that passes the filter
        refine (firstOf_append_seen (s := [f a]) (l.filter p) fun x hx hxa => hp ?_).symm
        rw [← h x a (by simpa using hxa)]
        exact (List.mem_filter.mp hx).2

/-- A list behind another: what the first one shows counts as seen. -/
theorem firstOf_append (f : α → β) (seen : List β) (l m : List α) :
    firstOf f seen (l ++ m) = firstOf f seen l ++ firstOf f (l.map f ++ seen) m := by
  induction l generalizing seen with
  | nil => rfl
  | cons a l ih =>
    rw [List.cons_append]
    by_cases ha : f a ∈ seen
    · rw [firstOf_cons_of_mem _ ha, firstOf_cons_of_mem _ ha, ih]
      congr 1
      refine firstOf_congr m fun b => ?_
      simp only [List.map_cons, List.cons_append, List.mem_cons]
      refine ⟨.inr, fun hb => hb.elim (fun hb => ?_) id⟩
      rw [hb]
      exact List.mem_append_right _ ha
    · rw [firstOf_cons_of_notMem _ ha, firstOf_cons_of_notMem _ ha, ih, List.cons_append]
      congr 2
      exact firstOf_congr m fun b => by simp [or_left_comm]

/-- Lists that share no view are worked through one by one. -/
theorem firstOf_append_of_disjoint {f : α → β} {l m : List α}
    (h : ∀ a ∈ l, ∀ b ∈ m, f a ≠ f b) : firstOf f [] (l ++ m) = firstOf f [] l ++ firstOf f [] m := by
  rw [firstOf_append, firstOf_append_seen]
  intro b hb hm
  obtain ⟨a, ha, hab⟩ := List.mem_map.mp hm
  exact h a ha b hb hab

/-- Lists of which no two share a view are worked through one by one. -/
theorem firstOf_flatMap {f : α → β} {δ : Type} {g : δ → List α} {ds : List δ}
    (h : ds.Pairwise fun d e => ∀ a ∈ g d, ∀ b ∈ g e, f a ≠ f b) :
    firstOf f [] (ds.flatMap g) = ds.flatMap fun d => firstOf f [] (g d) := by
  induction ds with
  | nil => rfl
  | cons d ds ih =>
    obtain ⟨hd, hds⟩ := List.pairwise_cons.mp h
    rw [List.flatMap_cons, List.flatMap_cons, ← ih hds]
    refine firstOf_append_of_disjoint fun a ha b hb => ?_
    obtain ⟨e, he, hbe⟩ := List.mem_flatMap.mp hb
    exact hd e he a ha b hbe

/-- Moving the items does not matter if it keeps apart what was apart, and together what was
together. -/
theorem firstOf_map {f : α → β} {δ : Type} {g : δ → α} {k : δ → γ} {l : List δ}
    (h : ∀ a ∈ l, ∀ b ∈ l, f (g a) = f (g b) ↔ k a = k b) :
    firstOf f [] (l.map g) = (firstOf k [] l).map g := by
  -- what was seen before is the view of items that stand in front, in both lists
  suffices H : ∀ (front rest : List δ), (∀ a ∈ front ++ rest, ∀ b ∈ front ++ rest,
      f (g a) = f (g b) ↔ k a = k b) →
      firstOf f (front.map fun d => f (g d)) (rest.map g) = (firstOf k (front.map k) rest).map g from
    H [] l h
  intro front rest
  induction rest generalizing front with
  | nil => intro _; rfl
  | cons d rest ih =>
    intro h
    have hmem : f (g d) ∈ front.map (fun d => f (g d)) ↔ k d ∈ front.map k := by
      simp only [List.mem_map]
      refine exists_congr fun e => and_congr_right fun he => ?_
      exact h e (List.mem_append_left _ he) d (by simp)
    have hnext : ∀ a ∈ d :: front ++ rest, ∀ b ∈ d :: front ++ rest,
        f (g a) = f (g b) ↔ k a = k b := by
      intro a ha b hb
      refine h a ?_ b ?_ <;> simp only [List.mem_append, List.mem_cons] at * <;> tauto
    have hrest : ∀ a ∈ front ++ rest, ∀ b ∈ front ++ rest, f (g a) = f (g b) ↔ k a = k b := by
      intro a ha b hb
      refine h a ?_ b ?_ <;> simp only [List.mem_append, List.mem_cons] at * <;> tauto
    rw [List.map_cons]
    by_cases hd : k d ∈ front.map k
    · rw [firstOf_cons_of_mem _ (hmem.mpr hd), firstOf_cons_of_mem _ hd, ih front hrest]
    · rw [firstOf_cons_of_notMem _ (mt hmem.mp hd), firstOf_cons_of_notMem _ hd, List.map_cons]
      exact congrArg (g d :: ·) (ih (d :: front) hnext)

end FirstOf

namespace Report

/-- Merging without repetition keeps the first issue of each identity. -/
theorem distinctFrom_eq_firstOf (seen : List (UsageKind × String × Option Location))
    (l : List Issue) : distinctFrom seen l = firstOf identity seen l := by
  induction l generalizing seen with
  | nil => rfl
  | cons i l ih =>
    rw [distinctFrom, firstOf]
    by_cases hi : identity i ∈ seen
    · simp [hi, ih]
    · simp [hi, ih]

/-- Merging without repetition drops nothing if there is none. -/
theorem mergeDistinct_eq_merge {language : Language} {threshold : Threshold} {parts : List Report}
    (h : ((parts.flatMap (·.issues)).map identity).Nodup) :
    mergeDistinct language threshold parts = merge language threshold parts := by
  rw [mergeDistinct, merge, distinctFrom_eq_firstOf, firstOf_eq_self h (by simp)]

end Report

end BaselineAudit
