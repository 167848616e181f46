import BaselineAudit.Feature.KeyIndex
import BaselineAudit.Feature.Resolver
import BaselineAudit.Proofs.Feature.Status
import Mathlib.Data.List.Permutation
import Std.Data.TreeMap.Lemmas

/-!
# Catalogs, their index and their statuses

* `Catalog.Tidy`: the records are sorted by id and their statuses are tidy. Every catalog that is read
  is tidy (`Catalog.tidy_of_parse?`).
* `Catalog.records_perm`: the records of a catalog are the entries that can be read, if their ids
  differ.
* `KeyIndex.lookup_ofCatalog`: a key belongs to the last feature that lists it.
* `Catalog.resolve_of_lookup`: for a key of the index, a catalog answers with what the record of the
  feature stores for it, unless the id of the feature is empty.
-/

namespace BaselineAudit

/-! ## Records -/

theorem Record.status_tidy {v : Json} {r : Record} (h : ofJson? v = some r) :
    ∀ s ∈ r.status, s.Tidy := by
  unfold ofJson? at h
  obtain ⟨xs, -, h⟩ := Option.bind_eq_some_iff.mp h
  split at h
  next kind name keys status =>
    obtain ⟨_, -, h⟩ := Option.bind_eq_some_iff.mp h
    obtain ⟨_, -, h⟩ := Option.bind_eq_some_iff.mp h
    obtain ⟨_, -, h⟩ := Option.bind_eq_some_iff.mp h
    obtain ⟨status?, hstatus, h⟩ := Option.bind_eq_some_iff.mp h
    cases h
    rintro s rfl
    obtain ⟨v, -, hv⟩ := Json.exists_of_optionalSlot hstatus
    exact Status.tidy_of_ofJson? hv
  next => exact absurd h (by simp)

namespace Catalog

/-- The record of an entry, if its value is one. -/
def recordOf? (e : String × Json) : Option (String × Record) :=
  (Record.ofJson? e.2.tabled).map (e.1, ·)

theorem recordOf?_eq_some_iff {e : String × Json} {id : String} {r : Record} :
    recordOf? e = some (id, r) ↔ e.1 = id ∧ Record.ofJson? e.2.tabled = some r := by
  simp only [recordOf?, Option.map_eq_some_iff, Prod.mk.injEq]
  constructor
  · rintro ⟨_, hr, hid, rfl⟩
    exact ⟨hid, hr⟩
  · rintro ⟨hid, hr⟩
    exact ⟨r, hr, hid, rfl⟩

theorem records_ofEntries (entries : List (String × Json)) :
    (ofEntries entries).records = (Json.table entries).filterMap recordOf? := rfl

theorem records_sorted (entries : List (String × Json)) : Json.Sorted (ofEntries entries).records := by
  rw [records_ofEntries]
  refine (Json.table_sorted entries).filterMap recordOf? ?_
  rintro a b hab ⟨id, r⟩ ha ⟨id', r'⟩ hb
  rw [recordOf?_eq_some_iff] at ha hb
  show id < id'
  rw [← ha.1, ← hb.1]
  exact hab

/-- The records are the entries that can be read, if the ids differ. -/
theorem records_perm {entries : List (String × Json)} (hn : (entries.map Prod.fst).Nodup) :
    (ofEntries entries).records.Perm (entries.filterMap recordOf?) := by
  rw [records_ofEntries]
  exact (Json.table_perm hn).filterMap recordOf?

/-- The records stand in the order of their ids, and the tables in their statuses are sorted. -/
structure Tidy (c : Catalog) : Prop where
  records : Json.Sorted c.records
  statuses : ∀ e ∈ c.records, ∀ s ∈ e.2.status, s.Tidy

theorem tidy_ofEntries (entries : List (String × Json)) : (ofEntries entries).Tidy := by
  refine ⟨records_sorted entries, ?_⟩
  rintro ⟨id, r⟩ he
  rw [records_ofEntries] at he
  obtain ⟨e, -, he⟩ := List.mem_filterMap.mp he
  exact Record.status_tidy (recordOf?_eq_some_iff.mp he).2

theorem tidy_empty : Tidy {} := by
  constructor
  · exact .nil
  · intro e he
    exact absurd he List.not_mem_nil

/-- Every catalog that is read is tidy. -/
theorem tidy_of_parse? {text : String} {c : Catalog} (h : parse? text = some c) : c.Tidy := by
  obtain ⟨v, -, h⟩ := Option.bind_eq_some_iff.mp h
  unfold ofJson? at h
  obtain ⟨xs, -, h⟩ := Option.bind_eq_some_iff.mp h
  split at h
  next features =>
    split at h
    next => exact Option.some.inj h ▸ tidy_empty
    next entries =>
      split at h
      · exact Option.some.inj h ▸ tidy_ofEntries entries
      · exact absurd h (by simp)
    next => exact absurd h (by simp)
  next => exact absurd h (by simp)

end Catalog

/-! ## The index -/

namespace KeyIndex

theorem getElem?_foldl_insert (l : List (String × String)) (t : Std.TreeMap String String)
    (key : String) :
    (l.foldl (fun t e => t.insert e.1 e.2) t)[key]? = (Json.find? key l.reverse).or t[key]? := by
  induction l generalizing t with
  | nil => rfl
  | cons e l ih =>
    rw [List.foldl_cons, ih, Std.TreeMap.getElem?_insert, List.reverse_cons, Json.find?_append,
      Json.find?_cons, Json.find?_nil, Option.or_assoc]
    by_cases he : e.1 = key
    · simp [he]
    · simp [he]

/-- A key belongs to the last feature that lists it. -/
theorem lookup_ofCatalog (c : Catalog) (key : String) :
    (ofCatalog c).lookup key = Json.find? key (listings c).reverse := by
  refine (getElem?_foldl_insert (listings c) ∅ key).trans ?_
  rw [Std.TreeMap.getElem?_emptyc, Option.or_none]

theorem mem_listings {c : Catalog} {key id : String} :
    (key, id) ∈ listings c ↔
      ∃ r, (id, r) ∈ c.records ∧ r.isFeature = true ∧ key ∈ r.keys.getD [] := by
  simp only [listings, List.mem_flatMap, Prod.exists]
  constructor
  · rintro ⟨id', r, hr, h⟩
    split at h
    next hf =>
      obtain ⟨k, hk, he⟩ := List.mem_map.mp h
      cases he
      exact ⟨r, hr, hf, hk⟩
    next => exact absurd h List.not_mem_nil
  · rintro ⟨r, hr, hf, hk⟩
    refine ⟨id, r, hr, ?_⟩
    rw [if_pos hf]
    exact List.mem_map.mpr ⟨key, hk, rfl⟩

/-- The feature that a key belongs to is one that lists it. -/
theorem exists_record_of_lookup {c : Catalog} {key id : String}
    (h : (ofCatalog c).lookup key = some id) :
    ∃ r, (id, r) ∈ c.records ∧ r.isFeature = true ∧ key ∈ r.keys.getD [] := by
  rw [lookup_ofCatalog] at h
  exact mem_listings.mp (List.mem_reverse.mp (Json.mem_of_find? h))

end KeyIndex

/-! ## Statuses -/

/-- The statuses that a record stores for a key: that of the key itself if the status of the feature
has one, and else that of the feature. Either way the statuses of single keys are left out. -/
inductive Record.StoresFor (r : Record) (key : String) : Status → Prop
  | own {s own : Status} (hs : r.status = some s) (h : (key, own) ∈ s.byKey.getD []) :
      StoresFor r key own.flat
  | feature {s : Status} (hs : r.status = some s) (h : ∀ own, (key, own) ∉ s.byKey.getD []) :
      StoresFor r key s.flat

namespace Status

/-- The status for a key inside a tidy status. -/
theorem Tidy.find?_eq_some_iff {s own : Status} (h : s.Tidy) {key : String} :
    s.byKey.bind (Json.find? key) = some own ↔ (key, own) ∈ s.byKey.getD [] := by
  obtain ⟨-, hsorted, -⟩ := h
  cases hb : s.byKey with
  | none => simp
  | some t => exact Json.find?_eq_some_iff (hsorted t hb).nodup

end Status

namespace Catalog

theorem Tidy.find?_eq_some_iff {c : Catalog} (hc : c.Tidy) {id : String} {r : Record} :
    c.find? id = some r ↔ (id, r) ∈ c.records :=
  Json.find?_eq_some_iff hc.records.nodup

/-- A catalog answers for a key of the feature `id` with what the record stores: a status is given if
and only if the record stores it for the key, and the only complaint is that the feature has no
status, if and only if the record has none. -/
structure AnswersFrom (c : Catalog) (r : Record) (id key : String) : Prop where
  ok_iff : ∀ s, c.resolve id key = .ok s ↔ r.StoresFor key s
  error_iff : ∀ e, c.resolve id key = .error e ↔ e = .noStatus id ∧ r.status = none

theorem resolve_of_find? {c : Catalog} {id : String} {r : Record} (hid : id ≠ "")
    (h : c.find? id = some r) (key : String) :
    c.resolve id key = r.status.elim (.error (.noStatus id)) fun s =>
      .ok ((s.byKey.bind (Json.find? key)).getD s).flat := by
  have he : ¬id.isEmpty = true := fun he => hid (String.isEmpty_iff.mp he)
  rw [resolve, if_neg he, h]
  cases hs : r.status <;> simp [hs]

/-- A status that is found is stored, and the other way round. -/
theorem storesFor_iff {r : Record} {s : Status} (hs : r.status = some s) (ht : s.Tidy)
    {key : String} {t : Status} :
    r.StoresFor key t ↔ t = ((s.byKey.bind (Json.find? key)).getD s).flat := by
  constructor
  · rintro (⟨hs', h⟩ | ⟨hs', h⟩)
    · cases hs.symm.trans hs'
      rw [ht.find?_eq_some_iff.mpr h]
      rfl
    · cases hs.symm.trans hs'
      have hn : s.byKey.bind (Json.find? key) = none :=
        Option.eq_none_iff_forall_ne_some.mpr fun own ho => h own (ht.find?_eq_some_iff.mp ho)
      rw [hn]
      rfl
  · rintro rfl
    cases ho : s.byKey.bind (Json.find? key) with
    | some own => exact .own hs (ht.find?_eq_some_iff.mp ho)
    | none =>
      refine .feature hs fun own h => ?_
      rw [ht.find?_eq_some_iff.mpr h] at ho
      exact absurd ho (by simp)

theorem answersFrom {c : Catalog} (hc : c.Tidy) {id : String} {r : Record} (hid : id ≠ "")
    (hr : (id, r) ∈ c.records) (key : String) : c.AnswersFrom r id key := by
  have h := resolve_of_find? hid (hc.find?_eq_some_iff.mpr hr) key
  cases hs : r.status with
  | none =>
    rw [hs] at h
    refine ⟨fun s => ?_, fun e => ?_⟩
    · rw [h]
      refine ⟨fun he => absurd he (by simp), ?_⟩
      rintro (⟨hs', -⟩ | ⟨hs', -⟩) <;> exact absurd (hs.symm.trans hs') (by simp)
    · rw [h]
      simp [hs, eq_comm]
  | some s =>
    rw [hs] at h
    refine ⟨fun t => ?_, fun e => ?_⟩
    · rw [h, storesFor_iff hs (hc.statuses _ hr s hs)]
      simp [eq_comm]
    · rw [h]
      simp [hs]

/-- The index and the catalog agree: a key belongs to a feature that has a record and lists the key,
and the catalog answers for it with what that record stores. Only a feature with an empty id is
taken for none. -/
theorem resolve_of_lookup (c : Catalog) (hc : c.Tidy) (key id : String)
    (h : (KeyIndex.ofCatalog c).lookup key = some id) :
    ∃ r, c.find? id = some r ∧ r.isFeature = true ∧ key ∈ r.keys.getD [] ∧
      (id ≠ "" → c.AnswersFrom r id key) ∧
      (id = "" → c.resolve id key = .error (.unmappedKey key)) := by
  obtain ⟨r, hr, hf, hk⟩ := KeyIndex.exists_record_of_lookup h
  refine ⟨r, hc.find?_eq_some_iff.mpr hr, hf, hk, fun hid => answersFrom hc hid hr key, ?_⟩
  rintro rfl
  rfl

/-- Where the feature stores a status of the key itself, it is given. -/
theorem resolve_of_lookup_own :
    ∃ (c : Catalog) (r : Record), c.Tidy ∧ (KeyIndex.ofCatalog c).lookup "k" = some "p" ∧
      c.find? "p" = some r ∧ c.AnswersFrom r "p" "k" ∧ c.resolve "p" "k" = .ok { level := .low } := by
  obtain ⟨c, hc, hl, hs⟩ : ∃ c : Catalog, c.Tidy ∧ (KeyIndex.ofCatalog c).lookup "k" = some "p" ∧
      c.resolve "p" "k" = .ok { level := .low } :=
    ⟨ofEntries [("p", .object [("kind", .string "feature"), ("compat_features", .array [.string "k"]),
      ("status", .object [("baseline", .string "high"),
        ("by_compat_key", .object [("k", .object [("baseline", .string "low")])])])])],
      tidy_ofEntries _, by rw [KeyIndex.lookup_ofCatalog]; rfl, rfl⟩
  obtain ⟨r, hr, -, -, ha, -⟩ := resolve_of_lookup c hc "k" "p" hl
  exact ⟨c, r, hc, hl, hr, ha (by decide), hs⟩

/-- A feature with an empty id stores a status for a key, and yet the key is taken for one that
belongs to no feature. -/
theorem resolve_unnamed_feature :
    ∃ c r, parse? ("\x7b\"features\":\x7b\"\":\x7b\"kind\":\"feature\",\"compat_features\":[\"k\"],"
        ++ "\"status\":\x7b\"baseline\":\"high\"\x7d\x7d\x7d\x7d") = some c ∧
      c.Tidy ∧ (KeyIndex.ofCatalog c).lookup "k" = some "" ∧ c.find? "" = some r ∧
      r.StoresFor "k" { level := .high } ∧ c.resolve "" "k" = .error (.unmappedKey "k") ∧
      ¬c.AnswersFrom r "" "k" := by
  have hstores : Record.StoresFor ⟨some .feature, none, some ["k"], some { level := .high }⟩ "k"
      (Status.flat { level := .high }) := .feature rfl fun _ h => absurd h List.not_mem_nil
  refine ⟨⟨[("", ⟨some .feature, none, some ["k"], some { level := .high }⟩)]⟩, _, ?parsed,
    tidy_of_parse? ?parsed, ?listed, rfl, hstores, rfl, fun h => ?_⟩
  case parsed => cbv
  case listed =>
    rw [KeyIndex.lookup_ofCatalog]
    rfl
  obtain ⟨he, -⟩ := (h.error_iff (.unmappedKey "k")).mp rfl
  exact absurd he (by simp)

end Catalog

end BaselineAudit
