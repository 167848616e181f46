import BaselineAudit.Json.Basic
import Mathlib.Data.List.Nodup

/-!
# Tables

A table is a list of entries whose names go up. `Json.table` makes one of any list of entries.

* `Json.Sorted`: the names go up.
* `Json.find?_table`: of two entries with one name, the later one is found.
* `Json.table_perm`: entries with different names are all kept.
* `Json.Sorted.eq_of_perm`: tables with the same entries are equal, whatever order these came in.
-/

namespace BaselineAudit.Json

variable {α : Type}

/-! ## Sorted lists of entries -/

/-- The names of the entries go up, so each of them stands once. -/
def Sorted (t : List (String × α)) : Prop := t.Pairwise fun a b => a.1 < b.1

instance (t : List (String × α)) : Decidable (Sorted t) :=
  inferInstanceAs (Decidable (t.Pairwise fun a b => a.1 < b.1))

theorem Sorted.nodup {t : List (String × α)} (h : Sorted t) : (t.map Prod.fst).Nodup := by
  refine List.pairwise_map.mpr (h.imp fun {a b} hab he => ?_)
  exact String.lt_irrefl b.1 (he ▸ hab)

/-- Sorted lists with the same entries are equal. -/
theorem Sorted.eq_of_perm {s t : List (String × α)} (hs : Sorted s) (ht : Sorted t)
    (h : s.Perm t) : s = t :=
  h.eq_of_pairwise (fun _ _ _ _ hab hba => absurd hba (String.lt_asymm hab)) hs ht

theorem lt_of_not_lt_of_ne {a b : String} (h : ¬a < b) (hne : a ≠ b) : b < a := by
  refine String.not_le.mp fun hab => hne ?_
  exact String.le_antisymm hab (String.not_lt.mp h)

theorem mem_putField {name : String} {value : α} {t : List (String × α)} {e : String × α}
    (h : e ∈ putField name value t) : e = (name, value) ∨ e ∈ t := by
  induction t with
  | nil => exact .inl (List.mem_singleton.mp h)
  | cons f t ih =>
    rw [putField] at h
    split at h
    · exact List.mem_cons.mp h
    · split at h
      · rcases List.mem_cons.mp h with h | h
        · exact .inl h
        · exact .inr (List.mem_cons_of_mem _ h)
      · rcases List.mem_cons.mp h with h | h
        · exact .inr (h ▸ List.mem_cons_self)
        · exact (ih h).imp_right (List.mem_cons_of_mem _)

theorem Sorted.putField {t : List (String × α)} (h : Sorted t) (name : String) (value : α) :
    Sorted (putField name value t) := by
  induction t with
  | nil => exact List.pairwise_singleton _ _
  | cons f t ih =>
    obtain ⟨hf, ht⟩ := List.pairwise_cons.mp h
    rw [Json.putField]
    split
    next hlt =>
      refine .cons (fun e he => ?_) h
      rcases List.mem_cons.mp he with rfl | he
      · exact hlt
      · exact String.lt_trans hlt (hf e he)
    next hlt =>
      split
      next heq => exact .cons (fun e he => heq ▸ hf e he) ht
      next hne =>
        refine .cons (fun e he => ?_) (ih ht)
        rcases mem_putField he with rfl | he
        · exact lt_of_not_lt_of_ne hlt hne
        · exact hf e he

theorem table_sorted (entries : List (String × α)) : Sorted (table entries) := by
  refine List.foldlRecOn entries _ .nil fun t ht e _ => ?_
  exact Sorted.putField ht e.1 e.2

theorem mem_of_mem_table {entries : List (String × α)} {e : String × α} (h : e ∈ table entries) :
    e ∈ entries := by
  refine List.foldlRecOn (motive := fun t => ∀ x ∈ t, x ∈ entries) entries _
    (fun x hx => absurd hx List.not_mem_nil) ?_ e h
  intro t ht f hf x hx
  rcases mem_putField hx with rfl | hx
  · exact hf
  · exact ht x hx

/-! ## Look-up -/

theorem find?_nil (name : String) : find? name ([] : List (String × α)) = none := rfl

theorem find?_cons (name : String) (e : String × α) (t : List (String × α)) :
    find? name (e :: t) = if e.1 = name then some e.2 else find? name t := by
  by_cases h : e.1 = name
  · simp [find?, h]
  · simp [find?, h]

theorem find?_append (name : String) (s t : List (String × α)) :
    find? name (s ++ t) = (find? name s).or (find? name t) := by
  induction s with
  | nil => rfl
  | cons e s ih =>
    rw [List.cons_append, find?_cons, find?_cons, ih]
    split <;> rfl

/-- Only the entries with the name count. -/
theorem find?_eq_head?_filter (name : String) (t : List (String × α)) :
    find? name t = ((t.filter fun e => e.1 == name).head?).map (·.2) := by
  rw [List.head?_filter]
  rfl

theorem mem_of_find? {name : String} {value : α} {t : List (String × α)}
    (h : find? name t = some value) : (name, value) ∈ t := by
  obtain ⟨e, he, rfl⟩ := Option.map_eq_some_iff.mp h
  have hn : e.1 = name := by simpa using List.find?_some he
  exact hn ▸ List.mem_of_find?_eq_some he

theorem find?_eq_none_iff {name : String} {t : List (String × α)} :
    find? name t = none ↔ name ∉ t.map Prod.fst := by
  rw [find?, Option.map_eq_none_iff, List.find?_eq_none, List.mem_map]
  constructor
  · rintro h ⟨e, he, rfl⟩
    exact h e he (beq_self_eq_true _)
  · intro h e he hname
    exact h ⟨e, he, beq_iff_eq.mp hname⟩

/-- What is found where no name stands twice. -/
theorem find?_eq_some_iff {name : String} {value : α} {t : List (String × α)}
    (hn : (t.map Prod.fst).Nodup) : find? name t = some value ↔ (name, value) ∈ t := by
  refine ⟨mem_of_find?, fun h => ?_⟩
  induction t with
  | nil => exact absurd h List.not_mem_nil
  | cons e t ih =>
    obtain ⟨he, hn⟩ := List.nodup_cons.mp hn
    rw [find?_cons]
    rcases List.mem_cons.mp h with rfl | h
    · exact if_pos rfl
    · have hne : e.1 ≠ name := fun heq => he (heq ▸ List.mem_map.mpr ⟨_, h, rfl⟩)
      rw [if_neg hne, ih hn h]

theorem find?_putField (k name : String) (value : α) (t : List (String × α)) :
    find? k (putField name value t) = if name = k then some value else find? k t := by
  induction t with
  | nil => exact find?_cons k (name, value) []
  | cons f t ih =>
    rw [putField]
    split
    · exact find?_cons k (name, value) _
    · split
      next heq =>
        rw [find?_cons, find?_cons]
        by_cases hk : name = k
        · simp [hk]
        · simp [hk, ← heq]
      next hne =>
        rw [find?_cons, find?_cons, ih]
        by_cases hk : name = k
        · have hf : f.1 ≠ k := fun h => hne (hk.trans h.symm)
          simp [hk, hf]
        · simp [hk]

/-- Of two entries with one name, the later one is found. -/
theorem find?_table (name : String) (entries : List (String × α)) :
    find? name (table entries) = find? name entries.reverse := by
  suffices h : ∀ t : List (String × α), find? name (entries.foldl (fun t e => putField e.1 e.2 t) t) =
      (find? name entries.reverse).or (find? name t) by
    exact (h []).trans (Option.or_none)
  intro t
  induction entries generalizing t with
  | nil => rfl
  | cons e entries ih =>
    rw [List.foldl_cons, ih, find?_putField, List.reverse_cons, find?_append, find?_cons, find?_nil,
      Option.or_assoc]
    by_cases he : e.1 = name <;> simp [he]

/-! ## Tables of entries with different names -/

/-- Entries with different names are all kept. -/
theorem table_perm {entries : List (String × α)} (hn : (entries.map Prod.fst).Nodup) :
    (table entries).Perm entries := by
  have ht := (table_sorted entries).nodup
  have hr : (entries.reverse.map Prod.fst).Nodup := by
    rw [List.map_reverse]
    exact List.nodup_reverse.mpr hn
  refine (List.perm_ext_iff_of_nodup (.of_map _ ht) (.of_map _ hn)).mpr fun e => ?_
  calc e ∈ table entries
      ↔ find? e.1 (table entries) = some e.2 := (find?_eq_some_iff ht).symm
    _ ↔ find? e.1 entries.reverse = some e.2 := by rw [find?_table]
    _ ↔ e ∈ entries.reverse := find?_eq_some_iff hr
    _ ↔ e ∈ entries := List.mem_reverse

/-- A sorted list is its own table. -/
theorem Sorted.table_eq {t : List (String × α)} (h : Sorted t) : table t = t :=
  (table_sorted t).eq_of_perm h (table_perm h.nodup)

end BaselineAudit.Json
