import BaselineAudit.Proofs.Audit.Parts
import BaselineAudit.Proofs.Feature.Catalog

/-!
# Data sets in another order

A data set is a text with a table of features. Neither the order of the entries nor entries that are
no records show in what is made of it.

* `Catalog.HasEntries`: a text is a data set with certain entries.
* `Catalog.Edited`: entries are moved, and entries that are no records are put in or left out.
* `Catalog.Edited.ofEntries_eq`: the catalog stays the same.
* `Catalog.ofEntries_of_edited`: so do its index and every report of a checker that goes by it.
-/

namespace BaselineAudit.Catalog

/-- A text is a data set with these entries in its table of features. -/
def HasEntries (text : String) (entries : List (String × Json)) : Prop :=
  ∃ v, Json.parse? text = some v ∧ v.slots? ["features"] = some [some (.object entries)]

/-- A data set gives the catalog of its entries if each of them stands for a value. -/
theorem HasEntries.parse?_eq {text : String} {entries : List (String × Json)}
    (h : HasEntries text entries) :
    parse? text = if Json.fieldsReadable entries then some (ofEntries entries) else none := by
  obtain ⟨v, hv, hs⟩ := h
  rw [parse?, hv, Option.bind_some, ofJson?, hs]
  rfl

/-- The entries of a table are brought into another order, and entries that are no records are put in
or left out, any number of times. -/
inductive Edited : List (String × Json) → List (String × Json) → Prop
  | moved {l m : List (String × Json)} (h : l.Perm m) : Edited l m
  | inserted (l m : List (String × Json)) {e : String × Json} (h : Record.ofJson? e.2.tabled = none) :
      Edited (l ++ m) (l ++ e :: m)
  | removed (l m : List (String × Json)) {e : String × Json} (h : Record.ofJson? e.2.tabled = none) :
      Edited (l ++ e :: m) (l ++ m)
  | trans {l m n : List (String × Json)} (hlm : Edited l m) (hmn : Edited m n) : Edited l n

namespace Edited

theorem filterMap_insert (l m : List (String × Json)) {e : String × Json}
    (h : Record.ofJson? e.2.tabled = none) :
    (l ++ e :: m).filterMap recordOf? = (l ++ m).filterMap recordOf? := by
  have he : recordOf? e = none := by rw [recordOf?, h]; rfl
  rw [List.filterMap_append, List.filterMap_append, List.filterMap_cons_none he]

/-- The records stay the same, but for their order. -/
theorem records_perm {l m : List (String × Json)} (h : Edited l m) :
    (l.filterMap recordOf?).Perm (m.filterMap recordOf?) := by
  induction h with
  | moved h => exact h.filterMap recordOf?
  | inserted l m h => rw [filterMap_insert l m h]
  | removed l m h => rw [filterMap_insert l m h]
  | trans _ _ ihl ihm => exact ihl.trans ihm

/-- The catalog stays the same if no id stands twice before and after. -/
theorem ofEntries_eq {l m : List (String × Json)} (h : Edited l m) (hl : (l.map Prod.fst).Nodup)
    (hm : (m.map Prod.fst).Nodup) : ofEntries m = ofEntries l := by
  have hlr : (ofEntries l).records.Perm (l.filterMap recordOf?) := Catalog.records_perm hl
  have hmr : (ofEntries m).records.Perm (m.filterMap recordOf?) := Catalog.records_perm hm
  have hp : (ofEntries m).records.Perm (ofEntries l).records :=
    hmr.trans (h.records_perm.symm.trans hlr.symm)
  exact congrArg Catalog.mk ((records_sorted m).eq_of_perm (records_sorted l) hp)

end Edited

/-- A data set gives the catalog of its entries, unless one of them stands for no value. If the ids
differ, the catalog has the entries that are records, in the order of their ids. It does not change
when entries are moved or when entries that are no records come or go, and neither does its index,
nor any report of a checker that goes by it. -/
theorem ofEntries_of_edited (entries entries' : List (String × Json))
    (hn : (entries.map Prod.fst).Nodup) (hn' : (entries'.map Prod.fst).Nodup)
    (he : Edited entries entries') :
    (∀ text l, HasEntries text l →
      parse? text = if Json.fieldsReadable l then some (ofEntries l) else none) ∧
    (∀ id r, (id, r) ∈ (ofEntries entries).records ↔
      ∃ v, (id, v) ∈ entries ∧ Record.ofJson? v.tabled = some r) ∧
    Json.Sorted (ofEntries entries).records ∧
    ofEntries entries' = ofEntries entries ∧
    KeyIndex.ofCatalog (ofEntries entries') = KeyIndex.ofCatalog (ofEntries entries) ∧
    ∀ threshold code e, (Checker.ofCatalog (ofEntries entries') threshold).report? code e =
      (Checker.ofCatalog (ofEntries entries) threshold).report? code e := by
  have hc := he.ofEntries_eq hn hn'
  refine ⟨fun text l h => h.parse?_eq, fun id r => ?_, records_sorted entries, hc, by rw [hc],
    fun threshold code e => by rw [hc]⟩
  rw [(records_perm hn).mem_iff, List.mem_filterMap]
  constructor
  · rintro ⟨e, he, hr⟩
    obtain ⟨hid, hv⟩ := recordOf?_eq_some_iff.mp hr
    exact ⟨e.2, hid ▸ he, hv⟩
  · rintro ⟨v, hv, hr⟩
    exact ⟨(id, v), hv, recordOf?_eq_some_iff.mpr ⟨rfl, hr⟩⟩

/-- Two features list the same key, and one of them is moved behind an entry that is no record. The
data sets give one catalog, in which the key belongs to the feature with the greater id. -/
theorem ofEntries_of_edited_moved :
    ∃ c,
      parse? "\x7b\"features\":\x7b\"b\":[\"feature\",null,[\"k\"]],\"a\":[\"feature\",null,[\"k\"]]\x7d\x7d"
        = some c ∧
      parse? ("\x7b\"features\":\x7b\"a\":[\"feature\",null,[\"k\"]],\"x\":null,"
        ++ "\"b\":[\"feature\",null,[\"k\"]]\x7d\x7d") = some c ∧
      (KeyIndex.ofCatalog c).lookup "k" = some "b" := by
  have he : ∀ r : Json, Edited [("b", r), ("a", r)] [("a", r), ("x", .null), ("b", r)] :=
    fun r => .trans (.moved (.swap _ _ [])) (.inserted [("a", r)] [("b", r)] rfl)
  obtain ⟨parsed, -, -, same, -, -⟩ := ofEntries_of_edited _ _ (by decide) (by decide)
    (he (.array [.string "feature", .null, .array [.string "k"]]))
  refine ⟨ofEntries [("b", .array [.string "feature", .null, .array [.string "k"]]),
    ("a", .array [.string "feature", .null, .array [.string "k"]])], ?_, ?_, ?_⟩
  · refine (parsed _ _ ⟨.object [("features", .object _)], ?_, rfl⟩).trans (if_pos ?_)
    · cbv
    · rfl
  · rw [← same]
    refine (parsed _ _ ⟨.object [("features", .object _)], ?_, rfl⟩).trans (if_pos ?_)
    · cbv
    · rfl
  · rw [KeyIndex.lookup_ofCatalog]
    rfl

end BaselineAudit.Catalog
