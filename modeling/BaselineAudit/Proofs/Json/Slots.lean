import BaselineAudit.Feature.Status
import BaselineAudit.Proofs.Json.Table
import Mathlib.Data.List.Forall2

/-!
# Slots and tables of a value

How the fields of a record and the entries of a table are read from a value, and how they are written.

* `Json.slots?_present`: a record that leaves out absent fields gives each field its slot back.
* `Json.tableOf?_entries`: a table gives its entries back.
* `Json.slots?_tabled`, `Json.optionalSlot_tabled`, `Json.tableOf?_tabled`: a value whose objects are
  turned into tables is read as before.

What stands inside a value is less deep than the value, and `Json.depth` is what the recursion of
readers goes by.
-/

namespace BaselineAudit.Json

/-! ## Depth -/

theorem depth_le_itemsDepth {items : List Json} {v : Json} (h : v ∈ items) :
    v.depth ≤ itemsDepth items := by
  induction items with
  | nil => exact absurd h List.not_mem_nil
  | cons item items ih =>
    rw [itemsDepth]
    rcases List.mem_cons.mp h with rfl | h
    · exact Nat.le_max_left _ _
    · exact Nat.le_trans (ih h) (Nat.le_max_right _ _)

theorem depth_le_fieldsDepth {fields : List (String × Json)} {e : String × Json} (h : e ∈ fields) :
    e.2.depth ≤ fieldsDepth fields := by
  induction fields with
  | nil => exact absurd h List.not_mem_nil
  | cons field fields ih =>
    rw [fieldsDepth]
    rcases List.mem_cons.mp h with rfl | h
    · exact Nat.le_max_left _ _
    · exact Nat.le_trans (ih h) (Nat.le_max_right _ _)

theorem depth_lt_of_mem_items {items : List Json} {v : Json} (h : v ∈ items) :
    v.depth < (array items).depth := by
  rw [depth]
  exact Nat.lt_succ_of_le (depth_le_itemsDepth h)

theorem depth_lt_of_mem_fields {fields : List (String × Json)} {e : String × Json}
    (h : e ∈ fields) : e.2.depth < (object fields).depth := by
  rw [depth]
  exact Nat.lt_succ_of_le (depth_le_fieldsDepth h)

/-! ## Reading lists -/

theorem mapM_eq_some_iff {α β : Type} {f : α → Option β} {l : List α} {m : List β} :
    l.mapM f = some m ↔ List.Forall₂ (fun a b => f a = some b) l m := by
  induction l generalizing m with
  | nil =>
    rw [List.mapM_nil, List.forall₂_nil_left_iff]
    exact ⟨fun h => (Option.some.inj h).symm, fun h => congrArg some h.symm⟩
  | cons a l ih =>
    rw [List.mapM_cons, List.forall₂_cons_left_iff]
    constructor
    · intro h
      obtain ⟨b, hb, h⟩ := Option.bind_eq_some_iff.mp h
      obtain ⟨m', hm, h⟩ := Option.bind_eq_some_iff.mp h
      exact ⟨b, m', hb, ih.mp hm, (Option.some.inj h).symm⟩
    · rintro ⟨b, m', hb, hm, rfl⟩
      rw [hb, ih.mpr hm]
      rfl

/-! ## Slots -/

/-- The slot of a field: what an object gives for it, if it has the field at most once. -/
def slot? (fields : List (String × Json)) (name : String) : Option (Option Json) :=
  match fields.filter fun e => e.1 == name with
  | [] => some none
  | [(_, v)] => some (some v)
  | _ => none

theorem slots?_object (names : List String) (fields : List (String × Json)) :
    slots? names (.object fields) = names.mapM (slot? fields) := rfl

theorem slot?_eq_some_iff {fields : List (String × Json)} {name : String} {x : Option Json} :
    slot? fields name = some x ↔
      (fields.filter fun e => e.1 == name) = (x.map (name, ·)).toList := by
  have hname : ∀ e ∈ fields.filter fun e => e.1 == name, e.1 = name := fun e he => by
    simpa using (List.mem_filter.mp he).2
  unfold slot?
  generalize fields.filter (fun e => e.1 == name) = found at hname
  rcases found with _ | ⟨⟨n, v⟩, _ | ⟨f, found⟩⟩
  · cases x <;> simp
  · have hn : n = name := hname (n, v) List.mem_cons_self
    cases x <;> simp [hn]
  · cases x <;> simp

theorem depth_lt_of_slots? {names : List String} {v w : Json} {xs : List (Option Json)}
    (h : v.slots? names = some xs) (hw : some w ∈ xs) : w.depth < v.depth := by
  cases v with
  | object fields =>
    rw [slots?_object, mapM_eq_some_iff, List.forall₂_iff_zip] at h
    obtain ⟨hl, h⟩ := h
    obtain ⟨i, hi, hw⟩ := List.getElem_of_mem hw
    have hs := h (a := names[i]) (b := xs[i]) (List.mem_iff_getElem.mpr ⟨i, by simp; omega, by simp⟩)
    rw [hw, slot?_eq_some_iff] at hs
    have hm : (names[i], w) ∈ fields.filter fun e => e.1 == names[i] := by simp [hs]
    exact depth_lt_of_mem_fields (List.mem_of_mem_filter hm)
  | array items =>
    rw [slots?] at h
    split at h
    · rw [← Option.some.inj h] at hw
      rcases List.mem_append.mp hw with hw | hw
      · exact depth_lt_of_mem_items (by simpa using hw)
      · exact absurd (List.eq_of_mem_replicate hw) (by simp)
    · exact absurd h (by simp)
  | _ => exact absurd h (by simp [slots?])

/-! ## Writing slots -/

/-- The fields of a record whose absent slots are left out. -/
def present : (names : List String) → (slots : List (Option Json)) → List (String × Json)
  | name :: names, slot :: slots => Status.optionalField name slot ++ present names slots
  | _, _ => []

theorem filter_optionalField_self (name : String) (x : Option Json) :
    (Status.optionalField name x).filter (fun e => e.1 == name) = (x.map (name, ·)).toList := by
  cases x <;> simp [Status.optionalField]

theorem filter_optionalField_of_ne {name other : String} (h : other ≠ name) (x : Option Json) :
    (Status.optionalField other x).filter (fun e => e.1 == name) = [] := by
  cases x <;> simp [Status.optionalField, h]

theorem filter_present_of_notMem {name : String} {names : List String} (h : name ∉ names)
    (xs : List (Option Json)) : (present names xs).filter (fun e => e.1 == name) = [] := by
  induction names generalizing xs with
  | nil => rfl
  | cons other names ih =>
    obtain ⟨hne, h⟩ := not_or.mp (mt List.mem_cons.mpr h)
    cases xs with
    | nil => rfl
    | cons x xs =>
      rw [present, List.filter_append, filter_optionalField_of_ne (Ne.symm hne), ih h xs]
      rfl

/-- A record that leaves out absent fields gives each field its slot back. -/
theorem slots?_present {names : List String} {xs : List (Option Json)} (hn : names.Nodup)
    (hl : names.length = xs.length) : slots? names (.object (present names xs)) = some xs := by
  -- the fields of the names that were passed stand in front
  suffices H : ∀ front : List (String × Json),
      (∀ name ∈ names, front.filter (fun e => e.1 == name) = []) →
      List.Forall₂ (fun name x => slot? (front ++ present names xs) name = some x) names xs by
    rw [slots?_object, mapM_eq_some_iff]
    exact H [] fun _ _ => rfl
  induction names generalizing xs with
  | nil => cases xs with
    | nil => exact fun _ _ => .nil
    | cons x xs => exact absurd hl (by simp)
  | cons name names ih => cases xs with
    | nil => exact absurd hl (by simp)
    | cons x xs =>
      intro front hfront
      obtain ⟨hname, hn⟩ := List.nodup_cons.mp hn
      rw [present]
      refine .cons ?_ ?_
      · rw [slot?_eq_some_iff, List.filter_append, List.filter_append, hfront name List.mem_cons_self,
          filter_optionalField_self, filter_present_of_notMem hname]
        simp
      · rw [← List.append_assoc]
        refine ih hn (by simpa using hl) _ fun other hother => ?_
        have hne : name ≠ other := fun h => hname (h ▸ hother)
        rw [List.filter_append, hfront other (List.mem_cons_of_mem _ hother),
          filter_optionalField_of_ne hne]
        rfl

theorem optional?_of_ne_null {α : Type} (read : Json → Option α) {v : Json} (h : v ≠ .null) :
    optional? read v = (read v).map some := by
  unfold optional?
  split
  · contradiction
  · rfl

theorem optionalSlot_map {α : Type} {read : Json → Option α} {write : α → Json} {x : Option α}
    (h : ∀ a ∈ x, read (write a) = some a) (hw : ∀ a, write a ≠ .null) :
    Status.optionalSlot read (x.map write) = some x := by
  cases x with
  | none => rfl
  | some a =>
    refine (optional?_of_ne_null read (hw a)).trans ?_
    rw [h a rfl]
    rfl

/-! ## Tables -/

section

variable {α : Type}

/-- An entry of a table is read. -/
def Reads (read : Json → Option α) (e : String × Json) (m : String × α) : Prop :=
  e.1 = m.1 ∧ read e.2 = some m.2

theorem tableOf?_eq_some_iff {read : Json → Option α} {v : Json} {t : List (String × α)} :
    tableOf? read v = some t ↔
      ∃ fields entries, v = .object fields ∧ List.Forall₂ (Reads read) fields entries ∧
        t = table entries := by
  have hreads : ∀ (e : String × Json) (m : String × α),
      (read e.2).map (e.1, ·) = some m ↔ Reads read e m := by
    rintro ⟨n, w⟩ ⟨n', a⟩
    simp [Reads, Option.map_eq_some_iff, and_comm]
  cases v with
  | object fields =>
    simp only [tableOf?, Option.map_eq_some_iff, mapM_eq_some_iff, hreads, object.injEq]
    constructor
    · rintro ⟨entries, h, rfl⟩
      exact ⟨fields, entries, rfl, h, rfl⟩
    · rintro ⟨_, entries, rfl, h, rfl⟩
      exact ⟨entries, h, rfl⟩
  | _ => simp [tableOf?]

theorem sorted_of_tableOf? {read : Json → Option α} {v : Json} {t : List (String × α)}
    (h : tableOf? read v = some t) : Sorted t := by
  obtain ⟨_, entries, -, -, rfl⟩ := tableOf?_eq_some_iff.mp h
  exact table_sorted entries

theorem exists_of_mem_tableOf? {read : Json → Option α} {v : Json} {t : List (String × α)}
    (h : tableOf? read v = some t) {m : String × α} (hm : m ∈ t) :
    ∃ w, w.depth < v.depth ∧ read w = some m.2 := by
  obtain ⟨fields, entries, rfl, hr, rfl⟩ := tableOf?_eq_some_iff.mp h
  obtain ⟨i, hi, rfl⟩ := List.getElem_of_mem (mem_of_mem_table hm)
  have hi' : i < fields.length := by rw [hr.length_eq]; exact hi
  exact ⟨fields[i].2, depth_lt_of_mem_fields (List.getElem_mem hi'), (hr.get hi' hi).2⟩

/-- Two readers that agree on what is less deep read the same table. -/
theorem tableOf?_congr {f g : Json → Option α} {v : Json} (h : ∀ w, w.depth < v.depth → f w = g w) :
    tableOf? f v = tableOf? g v := by
  cases v with
  | object fields =>
    suffices H : ∀ es : List (String × Json), (∀ e ∈ es, f e.2 = g e.2) →
        (es.mapM fun e => (f e.2).map (e.1, ·)) = es.mapM fun e => (g e.2).map (e.1, ·) by
      rw [tableOf?, tableOf?, H fields fun e he => h e.2 (depth_lt_of_mem_fields he)]
    intro es hes
    induction es with
    | nil => rfl
    | cons e es ih =>
      rw [List.mapM_cons, List.mapM_cons, hes e List.mem_cons_self,
        ih fun x hx => hes x (List.mem_cons_of_mem _ hx)]
  | _ => rfl

/-- A table gives its entries back. -/
theorem tableOf?_entries {read : Json → Option α} {write : α → Json} {t : List (String × α)}
    (ht : Sorted t) (h : ∀ e ∈ t, read (write e.2) = some e.2) :
    tableOf? read (.object (t.map fun e => (e.1, write e.2))) = some t := by
  refine tableOf?_eq_some_iff.mpr ⟨_, t, rfl, ?_, ht.table_eq.symm⟩
  rw [List.forall₂_map_left_iff, List.forall₂_same]
  exact fun e he => ⟨rfl, h e he⟩

end

/-! ## Objects as tables -/

theorem tabledItems_eq (items : List Json) : tabledItems items = items.map tabled := by
  induction items with
  | nil => rfl
  | cons item items ih => rw [tabledItems, ih, List.map_cons]

theorem tabledFields_eq (fields : List (String × Json)) :
    tabledFields fields = fields.map fun e => (e.1, e.2.tabled) := by
  induction fields with
  | nil => rfl
  | cons field fields ih => rw [tabledFields, ih, List.map_cons]

theorem filter_table {α : Type} (name : String) (entries : List (String × α)) :
    (table entries).filter (fun e => e.1 == name) =
      ((find? name entries.reverse).map (name, ·)).toList := by
  rw [← find?_table]
  have hn := (table_sorted entries).nodup
  generalize table entries = t at hn
  induction t with
  | nil => rfl
  | cons e t ih =>
    obtain ⟨he, hn⟩ := List.nodup_cons.mp hn
    rw [find?_cons]
    by_cases h : e.1 = name
    · have ht : t.filter (fun e => e.1 == name) = [] := by
        refine List.filter_eq_nil_iff.mpr fun x hx hxn => he ?_
        exact List.mem_map.mpr ⟨x, hx, (by simpa using hxn : x.1 = name).trans h.symm⟩
      rw [List.filter_cons_of_pos (by simpa using h), ht, if_pos h, ← h]
      rfl
    · rw [List.filter_cons_of_neg (by simpa using h), if_neg h, ih hn]

theorem slot?_tabled {fields : List (String × Json)} {name : String} {x : Option Json}
    (h : slot? fields name = some x) :
    slot? (table (tabledFields fields)) name = some (x.map tabled) := by
  rw [slot?_eq_some_iff] at h ⊢
  have hf : (fields.map fun e => (e.1, e.2.tabled)).filter (fun e => e.1 == name) =
      (x.map fun v => (name, v.tabled)).toList := by
    rw [List.filter_map]
    have hc : ((fun e : String × Json => e.1 == name) ∘ fun e : String × Json => (e.1, e.2.tabled)) =
        fun e => e.1 == name := rfl
    rw [hc, h]
    cases x <;> rfl
  rw [filter_table, tabledFields_eq, find?_eq_head?_filter, List.filter_reverse, hf]
  cases x <;> rfl

theorem slots?_tabled {names : List String} {v : Json} {xs : List (Option Json)}
    (h : v.slots? names = some xs) : v.tabled.slots? names = some (xs.map (·.map tabled)) := by
  cases v with
  | object fields =>
    rw [tabled, slots?_object, mapM_eq_some_iff]
    rw [slots?_object, mapM_eq_some_iff] at h
    rw [List.forall₂_map_right_iff]
    exact h.imp fun _ _ => slot?_tabled
  | array items =>
    rw [tabled, tabledItems_eq]
    rw [slots?] at h ⊢
    rw [List.length_map]
    split at h
    next hle =>
      rw [if_pos hle, ← Option.some.inj h]
      simp [Function.comp_def]
    next => exact absurd h (by simp)
  | _ => exact absurd h (by simp [slots?])

theorem tabled_eq_null {v : Json} : v.tabled = .null ↔ v = .null := by
  cases v <;> simp [tabled]

theorem optionalSlot_tabled {α : Type} {read : Json → Option α} {x : Option Json} {a : Option α}
    (hread : ∀ v ∈ x, ∀ b, read v = some b → read v.tabled = some b)
    (h : Status.optionalSlot read x = some a) :
    Status.optionalSlot read (x.map tabled) = some a := by
  cases x with
  | none => exact h
  | some v =>
    by_cases hv : v = .null
    · subst hv
      exact h
    · have h' : (read v).map some = some a := (optional?_of_ne_null read hv).symm.trans h
      obtain ⟨b, hb, rfl⟩ := Option.map_eq_some_iff.mp h'
      refine (optional?_of_ne_null read (mt tabled_eq_null.mp hv)).trans ?_
      rw [hread v rfl b hb]
      rfl

section

variable {α : Type}

theorem reads_putField {read : Json → Option α} {t : List (String × Json)} {s : List (String × α)}
    (h : List.Forall₂ (Reads read) t s) {name : String} {v : Json} {a : α} (hv : read v = some a) :
    List.Forall₂ (Reads read) (putField name v t) (putField name a s) := by
  induction h with
  | nil => exact .cons ⟨rfl, hv⟩ .nil
  | @cons e m t s he h ih =>
    obtain ⟨n, w⟩ := e
    obtain ⟨_, b⟩ := m
    obtain ⟨rfl, hw⟩ := he
    have he : Reads read (n, w) (n, b) := ⟨rfl, hw⟩
    rw [putField, putField]
    split
    · exact .cons ⟨rfl, hv⟩ (.cons he h)
    · split
      · exact .cons ⟨rfl, hv⟩ h
      · exact .cons he ih

theorem reads_table {read : Json → Option α} {l : List (String × Json)} {m : List (String × α)}
    (h : List.Forall₂ (Reads read) l m) : List.Forall₂ (Reads read) (table l) (table m) := by
  suffices H : ∀ t s, List.Forall₂ (Reads read) t s →
      List.Forall₂ (Reads read) (l.foldl (fun t e => putField e.1 e.2 t) t)
        (m.foldl (fun t e => putField e.1 e.2 t) s) from H [] [] .nil
  induction h with
  | nil => exact fun _ _ ht => ht
  | @cons e m' l m he h ih =>
    intro t s ht
    rw [List.foldl_cons, List.foldl_cons, he.1]
    exact ih _ _ (reads_putField ht he.2)

theorem tableOf?_tabled {read : Json → Option α} {v : Json} {t : List (String × α)}
    (hread : ∀ w, w.depth < v.depth → ∀ a, read w = some a → read w.tabled = some a)
    (h : tableOf? read v = some t) : tableOf? read v.tabled = some t := by
  obtain ⟨fields, entries, rfl, hr, rfl⟩ := tableOf?_eq_some_iff.mp h
  refine tableOf?_eq_some_iff.mpr ⟨table (tabledFields fields), table entries, ?_, reads_table ?_,
    (table_sorted entries).table_eq.symm⟩
  · rw [tabled]
  · rw [tabledFields_eq, List.forall₂_map_left_iff]
    have hmem : List.Forall₂ (fun e m => e ∈ fields ∧ Reads read e m) fields entries :=
      (List.forall₂_and_left fields entries).mpr ⟨fun _ he => he, hr⟩
    refine hmem.imp fun e m ⟨he, hem⟩ => ⟨hem.1, ?_⟩
    exact hread e.2 (depth_lt_of_mem_fields he) _ hem.2

end

end BaselineAudit.Json
