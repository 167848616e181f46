import BaselineAudit.Proofs.Feature.Catalog
import BaselineAudit.Proofs.Text.Order
import Mathlib.Data.Set.Card

/-!
# The index of a catalog

Several features may list a key, one of them may list it twice, and records of other kinds may list
it too.

* `Catalog.Lists`: a feature of the catalog lists a key.
* `KeyIndex.lookup_eq_some_iff`: of the features that list a key, it belongs to the one whose id has
  the greatest bytes, since the ids go up in the listings (`KeyIndex.pairwise_listings`).
* `KeyIndex.size_ofCatalog`: the index has as many keys as are listed.
* `KeyIndex.lookup_greatest`: both together, and which keys belong to no feature.
-/

namespace BaselineAudit

/-- A record of the catalog is a feature and lists a key. -/
def Catalog.Lists (c : Catalog) (id key : String) : Prop :=
  ∃ r keys, (id, r) ∈ c.records ∧ r.kind = some .feature ∧ r.keys = some keys ∧ key ∈ keys

namespace KeyIndex

theorem mem_listings_iff {c : Catalog} {key id : String} :
    (key, id) ∈ listings c ↔ c.Lists id key := by
  rw [mem_listings]
  constructor
  · rintro ⟨r, hr, hf, hk⟩
    cases hkeys : r.keys with
    | none =>
      rw [hkeys] at hk
      exact absurd hk List.not_mem_nil
    | some keys =>
      rw [hkeys] at hk
      exact ⟨r, keys, hr, beq_iff_eq.mp hf, hkeys, hk⟩
  · rintro ⟨r, keys, hr, hf, hkeys, hk⟩
    exact ⟨r, hr, beq_iff_eq.mpr hf, by rw [hkeys]; exact hk⟩

/-! ## The greatest feature -/

/-- The ids go up in the listings of a catalog, where a feature may list several keys. -/
theorem pairwise_listings {c : Catalog} (hc : Json.Sorted c.records) :
    (listings c).Pairwise fun a b => ¬b.2 < a.2 := by
  have listed : ∀ (e : String × Record) (x : String × String),
      x ∈ (if e.2.isFeature then (e.2.keys.getD []).map (·, e.1) else []) → x.2 = e.1 := by
    intro e x hx
    split at hx
    · obtain ⟨k, -, rfl⟩ := List.mem_map.mp hx
      rfl
    · exact absurd hx List.not_mem_nil
  refine List.pairwise_flatMap.mpr ⟨fun e _ => ?_, hc.imp fun {e f} hef x hx y hy => ?_⟩
  · refine List.pairwise_of_forall_mem_list fun x hx y hy => ?_
    rw [listed e x hx, listed e y hy]
    exact String.lt_irrefl e.1
  · rw [listed e x hx, listed f y hy]
    exact String.lt_asymm hef

/-- What is found first is the greatest, if the values go down. -/
theorem not_lt_of_find? {t : List (String × String)} (ht : t.Pairwise fun a b => ¬a.2 < b.2)
    {key id other : String} (h : Json.find? key t = some id) (hmem : (key, other) ∈ t) :
    ¬id < other := by
  induction t with
  | nil => exact absurd hmem List.not_mem_nil
  | cons e t ih =>
    obtain ⟨he, ht⟩ := List.pairwise_cons.mp ht
    rw [Json.find?_cons] at h
    split at h
    next hkey =>
      cases h
      rcases List.mem_cons.mp hmem with rfl | hmem
      · exact String.lt_irrefl _
      · exact he _ hmem
    next hkey =>
      rcases List.mem_cons.mp hmem with rfl | hmem
      · exact absurd rfl hkey
      · exact ih ht h hmem

theorem lt_of_lookup {c : Catalog} (hc : Json.Sorted c.records) {key id other : String}
    (h : (ofCatalog c).lookup key = some id) (hother : c.Lists other key) (hne : other ≠ id) :
    other < id := by
  rw [lookup_ofCatalog] at h
  have hdown : (listings c).reverse.Pairwise fun a b => ¬a.2 < b.2 :=
    List.pairwise_reverse.mpr (pairwise_listings hc)
  refine Json.lt_of_not_lt_of_ne (not_lt_of_find? hdown h ?_) hne.symm
  exact List.mem_reverse.mpr (mem_listings_iff.mpr hother)

theorem lists_of_lookup {c : Catalog} {key id : String} (h : (ofCatalog c).lookup key = some id) :
    c.Lists id key :=
  mem_listings_iff.mp (mem_listings.mpr (exists_record_of_lookup h))

/-- A key belongs to no feature if and only if none lists it. -/
theorem lookup_eq_none_iff {c : Catalog} {key : String} :
    (ofCatalog c).lookup key = none ↔ ∀ id, ¬c.Lists id key := by
  constructor
  · intro h id hid
    rw [lookup_ofCatalog, Json.find?, Option.map_eq_none_iff, List.find?_eq_none] at h
    exact h (key, id) (List.mem_reverse.mpr (mem_listings_iff.mpr hid)) (beq_self_eq_true key)
  · intro h
    rw [Option.eq_none_iff_forall_ne_some]
    exact fun id hid => h id (lists_of_lookup hid)

/-- A key belongs to the feature that lists it and whose id has the greatest bytes. -/
theorem lookup_eq_some_iff {c : Catalog} (hc : Json.Sorted c.records) {key id : String} :
    (ofCatalog c).lookup key = some id ↔
      c.Lists id key ∧ ∀ other, c.Lists other key → other ≠ id →
        Text.bytes other.toList < Text.bytes id.toList := by
  constructor
  · intro h
    refine ⟨lists_of_lookup h, fun other hother hne => ?_⟩
    exact Text.bytes_toList_lt (lt_of_lookup hc h hother hne)
  · rintro ⟨hid, hgreatest⟩
    cases hl : (ofCatalog c).lookup key with
    | none => exact absurd hid (lookup_eq_none_iff.mp hl id)
    | some found =>
      by_contra hfound
      have hne : id ≠ found := fun h => hfound (h ▸ rfl)
      have hlt := Text.bytes_toList_lt (lt_of_lookup hc hl hid hne)
      exact List.lt_asymm hlt (hgreatest found (lists_of_lookup hl) hne.symm)

/-! ## The number of keys -/

theorem mem_keys_ofCatalog {c : Catalog} {key : String} :
    key ∈ (ofCatalog c).entries.keys ↔ ∃ id, c.Lists id key := by
  rw [Std.TreeMap.mem_keys, ← Std.TreeMap.isSome_getElem?_iff_mem, Option.isSome_iff_ne_none]
  rw [Ne, ← not_forall_not]
  exact not_congr lookup_eq_none_iff

/-- The index has as many keys as the features list, each counted once. -/
theorem size_ofCatalog (c : Catalog) :
    ((ofCatalog c).size : ℕ∞) = Set.encard {key | ∃ id, c.Lists id key} := by
  have hkeys : {key | ∃ id, c.Lists id key} = ((ofCatalog c).entries.keys.toFinset : Set String) := by
    ext key
    rw [Finset.mem_coe, List.mem_toFinset, mem_keys_ofCatalog]
    rfl
  rw [hkeys, Set.encard_coe_eq_coe_finsetCard, List.toFinset_card_of_nodup Std.TreeMap.nodup_keys,
    Std.TreeMap.length_keys]
  rfl

/-- A key belongs to the feature with the greatest id among those that list it, compared byte by byte,
and to none if none lists it. There are as many keys as the features list. The records of every catalog
that is read are sorted (`Catalog.tidy_of_parse?`). -/
theorem lookup_greatest (c : Catalog) (hc : Json.Sorted c.records) :
    (∀ key id, (ofCatalog c).lookup key = some id ↔
      c.Lists id key ∧ ∀ other, c.Lists other key → other ≠ id →
        Text.bytes other.toList < Text.bytes id.toList) ∧
    (∀ key, (ofCatalog c).lookup key = none ↔ ∀ id, ¬c.Lists id key) ∧
    ((ofCatalog c).size : ℕ∞) = Set.encard {key | ∃ id, c.Lists id key} :=
  ⟨fun _ _ => lookup_eq_some_iff hc, fun _ => lookup_eq_none_iff, size_ofCatalog c⟩

/-- Two features list a key, one of them twice, and so does a record that was moved. The id with the
greatest bytes is not the one that would be the greatest in UTF-16. -/
theorem lookup_greatest_shared :
    ∃ c, c = Catalog.ofEntries
        [("😀", .object [("kind", .string "feature"),
            ("compat_features", .array [.string "k", .string "k"])]),
          ("ﬀ", .object [("kind", .string "feature"),
            ("compat_features", .array [.string "j", .string "k"])]),
          ("😁", .object [("kind", .string "moved"),
            ("compat_features", .array [.string "k", .string "m"])])] ∧
      Json.Sorted c.records ∧ (ofCatalog c).lookup "k" = some "😀" ∧
      (ofCatalog c).lookup "m" = none ∧ (ofCatalog c).size = 2 := by
  refine ⟨_, rfl, Catalog.records_sorted _, ?_⟩
  generalize hc : Catalog.ofEntries _ = c
  have hrecords : c.records = [("ﬀ", ⟨some .feature, none, some ["j", "k"], none⟩),
      ("😀", ⟨some .feature, none, some ["k", "k"], none⟩),
      ("😁", ⟨some .moved, none, some ["k", "m"], none⟩)] := by
    rw [← hc]
    rfl
  have hlists : ∀ id key, c.Lists id key ↔
      id = "ﬀ" ∧ (key = "j" ∨ key = "k") ∨ id = "😀" ∧ key = "k" := by
    intro id key
    simp [Catalog.Lists, hrecords, or_and_right, exists_or]
  obtain ⟨hsome, hnone, hsize⟩ := lookup_greatest c (hc ▸ Catalog.records_sorted _)
  refine ⟨(hsome "k" "😀").mpr ⟨(hlists _ _).mpr (by simp), fun other hother hne => ?_⟩,
    (hnone "m").mpr fun id hid => ?_, ?_⟩
  · obtain rfl : other = "ﬀ" := by simpa [hlists, hne] using hother
    decide
  · simp [hlists] at hid
  · have hkeys : {key | ∃ id, c.Lists id key} = {"j", "k"} := by
      ext key
      simp [hlists, exists_or]
    rw [hkeys, Set.encard_pair (by decide)] at hsize
    exact_mod_cast hsize

end KeyIndex

end BaselineAudit
