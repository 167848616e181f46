import BaselineAudit.Parsing.Automaton

/-!
# Items by number

The states of an automaton name items by number. Each number stands for an alternative of a rule, read
up to a place, and `next` gives the number of the item with one more step read.

* `Productions.Stands`: what a number stands for.
* `Productions.stands_of_mem_starts`: the unread alternatives of a rule.
* `Productions.Stands.next`: one more step.
-/

namespace BaselineAudit.Parsing

theorem mem_distinct {α : Type} [BEq α] [LawfulBEq α] {l : List α} {a : α} :
    a ∈ distinct l ↔ a ∈ l := by
  suffices hfold : ∀ (l seen : List α),
      a ∈ l.foldl (fun seen a => if seen.contains a then seen else a :: seen) seen ↔
        a ∈ seen ∨ a ∈ l by
    rw [distinct, List.mem_reverse, hfold]
    simp
  intro l
  induction l with
  | nil => simp
  | cons b l ih =>
    intro seen
    rw [List.foldl_cons, ih]
    split
    · rename_i hb
      have hb : b ∈ seen := by simpa using hb
      simp only [List.mem_cons]
      refine ⟨fun h => h.imp_right .inr, ?_⟩
      rintro (h | rfl | h)
      · exact .inl h
      · exact .inl hb
      · exact .inr h
    · simp only [List.mem_cons]
      rw [or_assoc, or_left_comm]

namespace Item

@[simp] theorem rest_ofSteps (rule : Nat) (steps : List Step) (n : Nat) :
    (ofSteps rule steps n).rest = steps.drop n := rfl

theorem advance_ofSteps {rule n : Nat} {steps : List Step} (h : n < steps.length) :
    (ofSteps rule steps n).advance = ofSteps rule steps (n + 1) := by
  rw [advance, rest_ofSteps, List.drop_eq_getElem_cons h]
  simp only [ofSteps, List.take_succ_eq_append_getElem h, List.map_append, List.map_cons,
    List.map_nil]

end Item

/-! ## Numbering -/

namespace Productions

/-- Where the items of each rule start, if those of the first one start at `n`. -/
def offsetsFrom (n : Nat) : List (List Item) → List Nat
  | [] => []
  | items :: rest => n :: offsetsFrom (n + items.length) rest

theorem foldl_offsets (perRule : List (List Item)) (offs : List Nat) (n : Nat) :
    (perRule.foldl (fun (offs, n) items => (offs ++ [n], n + items.length)) (offs, n)).1 =
      offs ++ offsetsFrom n perRule := by
  induction perRule generalizing offs n with
  | nil => simp [offsetsFrom]
  | cons items rest ih =>
    rw [List.foldl_cons, ih, offsetsFrom, List.append_assoc]
    rfl

/-- The items of a rule. -/
def itemsOf (p : Productions) (r : Nat) : List Item :=
  distinct ((p.alternativesOf r).flatMap fun steps =>
    (List.range (steps.length + 1)).map (Item.ofSteps r steps))

theorem mem_itemsOf {p : Productions} {r : Nat} {i : Item} :
    i ∈ p.itemsOf r ↔
      ∃ steps ∈ p.alternativesOf r, ∃ n ≤ steps.length, i = Item.ofSteps r steps n := by
  rw [itemsOf, mem_distinct, List.mem_flatMap]
  simp only [List.mem_map, List.mem_range, Nat.lt_succ_iff]
  constructor
  · rintro ⟨steps, h, n, hn, rfl⟩
    exact ⟨steps, h, n, hn, rfl⟩
  · rintro ⟨steps, h, n, hn, rfl⟩
    exact ⟨steps, h, n, hn, rfl⟩

/-- The items of a rule are closed under reading one more step. -/
theorem advance_mem_itemsOf {p : Productions} {r : Nat} {i : Item} (h : i ∈ p.itemsOf r)
    (hrest : i.rest ≠ []) : i.advance ∈ p.itemsOf r := by
  obtain ⟨steps, hs, n, hn, rfl⟩ := mem_itemsOf.mp h
  have hlt : n < steps.length := by
    rw [Item.rest_ofSteps, ne_eq, List.drop_eq_nil_iff] at hrest
    omega
  exact mem_itemsOf.mpr ⟨steps, hs, n + 1, hlt, Item.advance_ofSteps hlt⟩

/-- The number of each item with one more step read. -/
def nextsFrom (n : Nat) (perRule : List (List Item)) : List Nat :=
  (perRule.zip (offsetsFrom n perRule)).flatMap fun (items, offset) =>
    items.map fun i => offset + items.idxOf i.advance

/-- The numbers of the unread items of each rule. -/
def startsFrom (n : Nat) (perRule : List (List Item)) : List (List Nat) :=
  (perRule.zip (offsetsFrom n perRule)).map fun (items, offset) =>
    (items.zipIdx.filter (·.1.done == 0)).map fun e => offset + e.2

/-- The number behind an item leads to the item with one more step read. -/
theorem getElem?_nexts {perRule : List (List Item)} (n : Nat)
    (hclosed : ∀ items ∈ perRule, ∀ i ∈ items, i.rest ≠ [] → i.advance ∈ items) {k : Nat} {i : Item}
    (hi : perRule.flatten[k]? = some i) (hrest : i.rest ≠ []) :
    ∃ m, (nextsFrom n perRule)[k]? = some (n + m) ∧ perRule.flatten[m]? = some i.advance := by
  induction perRule generalizing n k with
  | nil => exact absurd hi (by simp)
  | cons items rest ih =>
    rw [List.flatten_cons, List.getElem?_append] at hi
    rw [nextsFrom, offsetsFrom, List.zip_cons_cons, List.flatMap_cons, List.getElem?_append,
      List.length_map]
    split at hi
    · rename_i hk
      have hmem := hclosed items (List.mem_cons_self ..) i (List.mem_of_getElem? hi) hrest
      refine ⟨items.idxOf i.advance, ?_, ?_⟩
      · rw [if_pos hk, List.getElem?_map, hi]
        rfl
      · have hlt := List.idxOf_lt_length_of_mem hmem
        rw [List.flatten_cons, List.getElem?_append_left hlt, List.getElem?_eq_getElem hlt]
        exact congrArg some (List.getElem_idxOf hlt)
    · rename_i hk
      obtain ⟨m, hm, hm'⟩ := ih (n + items.length)
        (fun l hl => hclosed l (List.mem_cons_of_mem items hl)) hi
      refine ⟨items.length + m, ?_, ?_⟩
      · rw [if_neg hk]
        exact hm.trans (congrArg some (Nat.add_assoc ..))
      · rw [List.flatten_cons, List.getElem?_append_right (by omega), Nat.add_sub_cancel_left]
        exact hm'

/-- The numbers of the unread alternatives of a rule. -/
theorem mem_starts {perRule : List (List Item)} (n : Nat) {r k : Nat} {ks : List Nat}
    (hks : (startsFrom n perRule)[r]? = some ks) (hk : k ∈ ks) :
    ∃ items m i, perRule[r]? = some items ∧ k = n + m ∧ perRule.flatten[m]? = some i ∧ i ∈ items ∧
      i.done = 0 := by
  induction perRule generalizing n r with
  | nil => exact absurd hks (by simp [startsFrom])
  | cons items rest ih =>
    rw [startsFrom, offsetsFrom, List.zip_cons_cons, List.map_cons] at hks
    cases r with
    | zero =>
      rw [List.getElem?_cons_zero, Option.some.injEq] at hks
      subst hks
      obtain ⟨⟨i, m⟩, he, rfl⟩ := List.mem_map.mp hk
      obtain ⟨hm, hdone⟩ := List.mem_filter.mp he
      have hget := List.mem_zipIdx_iff_getElem?.mp hm
      refine ⟨items, m, i, rfl, rfl, ?_, List.mem_of_getElem? hget, by simpa using hdone⟩
      rw [List.flatten_cons, List.getElem?_append_left (List.getElem?_eq_some_iff.mp hget).1]
      exact hget
    | succ r =>
      rw [List.getElem?_cons_succ] at hks
      obtain ⟨items', m, i, hr, rfl, hm, hi⟩ := ih (n + items.length) hks
      refine ⟨items', items.length + m, i, hr, Nat.add_assoc .., ?_, hi⟩
      rw [List.flatten_cons, List.getElem?_append_right (by omega), Nat.add_sub_cancel_left]
      exact hm

/-! ## What numbers stand for -/

section

variable {p : Productions}

theorem toItems_items : p.toItems.items = (p.allRules.map p.itemsOf).flatten.toArray := rfl

theorem toItems_next : p.toItems.next = (nextsFrom 0 (p.allRules.map p.itemsOf)).toArray := by
  rw [nextsFrom, ← List.nil_append (offsetsFrom 0 _), ← foldl_offsets]
  rfl

theorem toItems_starts : p.toItems.starts = (startsFrom 0 (p.allRules.map p.itemsOf)).toArray := by
  rw [startsFrom, ← List.nil_append (offsetsFrom 0 _), ← foldl_offsets]
  rfl

variable (p)

/-- Number `i` stands for an alternative of rule `r`, read up to its `n`-th step. -/
structure Stands (i r : Nat) (steps : List Step) (n : Nat) : Prop where
  item? : p.toItems.items[i]? = some (Item.ofSteps r steps n)
  mem : steps ∈ p.alternativesOf r
  le : n ≤ steps.length

variable {p} {i r n : Nat} {steps : List Step}

theorem Stands.item (h : p.Stands i r steps n) : p.toItems.item i = Item.ofSteps r steps n := by
  rw [Items.item, Array.getD_eq_getD_getElem?, h.item?]
  rfl

/-- One more step. -/
theorem Stands.next (h : p.Stands i r steps n) (hlt : n < steps.length) :
    p.Stands (p.toItems.next.getD i 0) r steps (n + 1) := by
  have hrest : (Item.ofSteps r steps n).rest ≠ [] := by
    rw [Item.rest_ofSteps, ne_eq, List.drop_eq_nil_iff]
    omega
  have hclosed : ∀ items ∈ p.allRules.map p.itemsOf, ∀ i ∈ items, i.rest ≠ [] → i.advance ∈ items := by
    intro items hitems i hi hrest
    obtain ⟨r, -, rfl⟩ := List.mem_map.mp hitems
    exact advance_mem_itemsOf hi hrest
  have hitem := h.item?
  rw [toItems_items, List.getElem?_toArray] at hitem
  obtain ⟨m, hm, hm'⟩ := getElem?_nexts 0 hclosed hitem hrest
  have hnext : p.toItems.next.getD i 0 = m := by
    rw [Array.getD_eq_getD_getElem?, toItems_next, List.getElem?_toArray, hm, Nat.zero_add]
    rfl
  refine ⟨?_, h.mem, hlt⟩
  rw [hnext, toItems_items, List.getElem?_toArray, hm', Item.advance_ofSteps hlt]

/-- The unread alternatives of a rule. -/
theorem stands_of_mem_starts (h : i ∈ p.toItems.starts.getD r []) :
    ∃ steps, p.Stands i r steps 0 := by
  rw [Array.getD_eq_getD_getElem?, toItems_starts, List.getElem?_toArray] at h
  cases hks : (startsFrom 0 (p.allRules.map p.itemsOf))[r]? with
  | none =>
    rw [hks] at h
    exact absurd h (by simp)
  | some ks =>
    rw [hks] at h
    obtain ⟨items, m, x, hr, rfl, hm, hx, hdone⟩ := mem_starts 0 hks h
    rw [List.getElem?_map] at hr
    obtain ⟨r', hr', rfl⟩ := Option.map_eq_some_iff.mp hr
    obtain ⟨_, rfl⟩ := List.getElem?_eq_some_iff.mp hr'
    obtain ⟨steps, hs, n, hn, rfl⟩ := mem_itemsOf.mp hx
    obtain rfl : n = 0 := hdone
    refine ⟨steps, ?_, ?_, hn⟩
    · rw [toItems_items, List.getElem?_toArray, Nat.zero_add, hm]
      simp [allRules]
    · simpa [allRules] using hs

end

end Productions

end BaselineAudit.Parsing
