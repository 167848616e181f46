import BaselineAudit.Proofs.Feature.Status
import BaselineAudit.Report.Issue

/-!
# Exchanging issues

* `Issue.ofJson?_toJson`, `Issue.tidy_of_ofJson?`, `Issue.ofJson?_tabled`: what holds of statuses holds
  of issues.
* `exchange_reads_back`: issues and statuses are read back from what they are written as, and what is
  written of something that was read is a normal form of it.
-/

namespace BaselineAudit

/-! ## Kinds and locations -/

namespace UsageKind

theorem ofName?_name (k : UsageKind) : ofName? k.name = some k := by
  cases k <;> rfl

theorem ofJson?_name (k : UsageKind) : ofJson? (.string k.name) = some k := ofName?_name k

theorem choice?_tabled {v : Json} {s : String} (h : v.choice? = some s) :
    v.tabled.choice? = some s := by
  cases v with
  | object fields =>
    unfold Json.choice? at h
    split at h
    next he => cases he
    next he =>
      cases he
      rw [← h]
      rfl
    next => exact absurd h (by simp)
  | _ => exact h

theorem ofJson?_tabled {v : Json} {k : UsageKind} (h : ofJson? v = some k) :
    ofJson? v.tabled = some k := by
  obtain ⟨s, hs, hk⟩ := Option.bind_eq_some_iff.mp h
  exact Option.bind_eq_some_iff.mpr ⟨s, choice?_tabled hs, hk⟩

end UsageKind

theorem Json.natural?_tabled {v : Json} {n : Nat} (h : v.natural? = some n) :
    v.tabled.natural? = some n := by
  cases v <;> exact h

namespace Location

theorem ofJson?_eq_some_iff {v : Json} {l : Location} :
    ofJson? v = some l ↔ ∃ line column : Json, v.slots? ["line", "column"] = some [some line, some column] ∧
      line.natural? = some l.line ∧ column.natural? = some l.column := by
  unfold ofJson?
  constructor
  · intro h
    obtain ⟨xs, hxs, h⟩ := Option.bind_eq_some_iff.mp h
    split at h
    next line column =>
      obtain ⟨n, hn, h⟩ := Option.bind_eq_some_iff.mp h
      obtain ⟨m, hm, h⟩ := Option.bind_eq_some_iff.mp h
      cases h
      exact ⟨line, column, hxs, hn, hm⟩
    next => exact absurd h (by simp)
  · rintro ⟨line, column, hxs, hn, hm⟩
    simp only [hxs, Option.bind_eq_bind, Option.bind_some, hn, hm]
    rfl

theorem slots?_toJson (l : Location) :
    l.toJson.slots? ["line", "column"] = some [some (.natural l.line), some (.natural l.column)] :=
  @Json.slots?_present ["line", "column"] [some (.natural l.line), some (.natural l.column)]
    (by decide) rfl

theorem ofJson?_toJson (l : Location) : ofJson? l.toJson = some l :=
  ofJson?_eq_some_iff.mpr ⟨.natural l.line, .natural l.column, slots?_toJson l, rfl, rfl⟩

theorem ofJson?_tabled {v : Json} {l : Location} (h : ofJson? v = some l) :
    ofJson? v.tabled = some l := by
  obtain ⟨line, column, hxs, hn, hm⟩ := ofJson?_eq_some_iff.mp h
  exact ofJson?_eq_some_iff.mpr ⟨line.tabled, column.tabled, Json.slots?_tabled hxs,
    Json.natural?_tabled hn, Json.natural?_tabled hm⟩

end Location

namespace Issue

/-! ## Reading by fields -/

/-- What stands in each field of an exchanged issue. -/
structure Slots where
  kind : Option Json
  property : Option Json
  value : Option Json
  key : Option Json
  feature : Option Json
  level : Option Json
  lowDate : Option Json
  highDate : Option Json
  location : Option Json
  support : Option Json

/-- The slots in the order of `fieldNames`. -/
def Slots.toList (x : Slots) : List (Option Json) :=
  [x.kind, x.property, x.value, x.key, x.feature, x.level, x.lowDate, x.highDate, x.location, x.support]

/-- The slots with each value changed. -/
def Slots.map (f : Json → Json) (x : Slots) : Slots :=
  ⟨x.kind.map f, x.property.map f, x.value.map f, x.key.map f, x.feature.map f, x.level.map f,
    x.lowDate.map f, x.highDate.map f, x.location.map f, x.support.map f⟩

/-- What an issue puts into each field. -/
def slots (i : Issue) : Slots :=
  ⟨some (.string i.kind.name), some (.string i.property), i.value.map .string, some (.string i.key),
    some ((i.feature.map Json.string).getD .null), some i.level.toJson, i.lowDate.map .string,
    i.highDate.map .string, i.location.map Location.toJson, i.support.map Status.textsToJson⟩

/-- The slots hold an issue. -/
structure Slots.Hold (x : Slots) (i : Issue) : Prop where
  kind : x.kind.bind UsageKind.ofJson? = some i.kind
  property : x.property.bind Json.string? = some i.property
  value : Status.optionalSlot Json.string? x.value = some i.value
  key : x.key.bind Json.string? = some i.key
  feature : Status.optionalSlot Json.string? x.feature = some i.feature
  level : x.level.bind Level.ofJson? = some i.level
  lowDate : Status.optionalSlot Json.string? x.lowDate = some i.lowDate
  highDate : Status.optionalSlot Json.string? x.highDate = some i.highDate
  location : Status.optionalSlot Location.ofJson? x.location = some i.location
  support : Status.optionalSlot (Json.tableOf? Json.string?) x.support = some i.support

theorem ofJson?_eq_some_iff {v : Json} {i : Issue} :
    ofJson? v = some i ↔ ∃ x : Slots, v.slots? fieldNames = some x.toList ∧ x.Hold i := by
  unfold ofJson?
  constructor
  · intro h
    obtain ⟨xs, hxs, h⟩ := Option.bind_eq_some_iff.mp h
    split at h
    next kind property value key feature level lowDate highDate location support =>
      obtain ⟨a, ha, h⟩ := Option.bind_eq_some_iff.mp h
      obtain ⟨b, hb, h⟩ := Option.bind_eq_some_iff.mp h
      obtain ⟨c, hc, h⟩ := Option.bind_eq_some_iff.mp h
      obtain ⟨d, hd, h⟩ := Option.bind_eq_some_iff.mp h
      obtain ⟨e, he, h⟩ := Option.bind_eq_some_iff.mp h
      obtain ⟨f, hf, h⟩ := Option.bind_eq_some_iff.mp h
      obtain ⟨g, hg, h⟩ := Option.bind_eq_some_iff.mp h
      obtain ⟨k, hk, h⟩ := Option.bind_eq_some_iff.mp h
      obtain ⟨l, hl, h⟩ := Option.bind_eq_some_iff.mp h
      obtain ⟨m, hm, h⟩ := Option.bind_eq_some_iff.mp h
      cases h
      exact ⟨⟨some kind, some property, value, some key, feature, some level, lowDate, highDate,
        location, support⟩, hxs, ha, hb, hc, hd, he, hf, hg, hk, hl, hm⟩
    next => exact absurd h (by simp)
  · rintro ⟨x, hxs, hx⟩
    obtain ⟨kind, hkind, hk⟩ := Option.bind_eq_some_iff.mp hx.kind
    obtain ⟨property, hproperty, hp⟩ := Option.bind_eq_some_iff.mp hx.property
    obtain ⟨key, hkey, hn⟩ := Option.bind_eq_some_iff.mp hx.key
    obtain ⟨level, hlevel, hl⟩ := Option.bind_eq_some_iff.mp hx.level
    simp only [hxs, Slots.toList, hkind, hproperty, hkey, hlevel, Option.bind_eq_bind,
      Option.bind_some, hk, hp, hn, hl, hx.value, hx.feature, hx.lowDate, hx.highDate, hx.location,
      hx.support]
    rfl

/-! ## Writing and reading back -/

/-- The table of browsers in an issue is sorted by name. -/
def Tidy (i : Issue) : Prop := ∀ t ∈ i.support, Json.Sorted t

/-- Everything that is read is tidy. -/
theorem tidy_of_ofJson? {v : Json} {i : Issue} (h : ofJson? v = some i) : i.Tidy := by
  obtain ⟨x, -, hx⟩ := ofJson?_eq_some_iff.mp h
  exact Json.sorted_of_optionalSlot hx.support

theorem toJson_eq (i : Issue) : i.toJson = .object (Json.present fieldNames i.slots.toList) := by
  simp [toJson, fields, fieldNames, slots, Slots.toList, Json.present, Status.optionalField]

theorem slots?_toJson (i : Issue) : i.toJson.slots? fieldNames = some i.slots.toList := by
  rw [toJson_eq]
  exact Json.slots?_present (by decide) rfl

/-- A tidy issue is read back from what it is written as. -/
theorem ofJson?_toJson {i : Issue} (h : i.Tidy) : ofJson? i.toJson = some i := by
  refine ofJson?_eq_some_iff.mpr ⟨i.slots, slots?_toJson i, ?_⟩
  exact {
    kind := UsageKind.ofJson?_name i.kind
    property := rfl
    value := Json.optionalSlot_string_map i.value
    key := rfl
    -- an absent feature is written as `null`
    feature := by cases hf : i.feature <;> simp [slots, hf] <;> rfl
    level := Level.ofJson?_toJson i.level
    lowDate := Json.optionalSlot_string_map i.lowDate
    highDate := Json.optionalSlot_string_map i.highDate
    location := Json.optionalSlot_map (fun l _ => Location.ofJson?_toJson l)
      (fun l => by simp [Location.toJson])
    support := Json.optionalSlot_texts_map h }

theorem bind_tabled {α : Type} {read : Json → Option α} {x : Option Json} {a : α}
    (hread : ∀ {v : Json} {b : α}, read v = some b → read v.tabled = some b)
    (h : x.bind read = some a) : (x.map Json.tabled).bind read = some a := by
  obtain ⟨v, rfl, hv⟩ := Option.bind_eq_some_iff.mp h
  exact hread hv

/-- The order of the fields, and fields that are skipped, do not matter. -/
theorem ofJson?_tabled {v : Json} {i : Issue} (h : ofJson? v = some i) :
    ofJson? v.tabled = some i := by
  obtain ⟨x, hx, hold⟩ := ofJson?_eq_some_iff.mp h
  refine ofJson?_eq_some_iff.mpr ⟨x.map Json.tabled, Json.slots?_tabled hx, ?_⟩
  exact {
    kind := bind_tabled UsageKind.ofJson?_tabled hold.kind
    property := bind_tabled Json.string?_tabled hold.property
    value := Json.optionalSlot_string_tabled hold.value
    key := bind_tabled Json.string?_tabled hold.key
    feature := Json.optionalSlot_string_tabled hold.feature
    level := bind_tabled Level.ofJson?_tabled hold.level
    lowDate := Json.optionalSlot_string_tabled hold.lowDate
    highDate := Json.optionalSlot_string_tabled hold.highDate
    location := Json.optionalSlot_tabled (fun _ _ _ => Location.ofJson?_tabled) hold.location
    support := Json.optionalSlot_texts_tabled hold.support }

end Issue

/-! ## Issues and statuses -/

/-- Issues and statuses are read back from what they are written as, whatever order the fields of an
object are kept in. What is written of something that was read is read as the same, and is written
as itself again. -/
theorem exchange_reads_back :
    (∀ i : Issue, i.Tidy →
      Issue.ofJson? i.toJson = some i ∧ Issue.ofJson? i.toJson.tabled = some i) ∧
    (∀ s : Status, s.Tidy →
      Status.ofJson? s.toJson = some s ∧ Status.ofJson? s.toJson.tabled = some s) ∧
    (∀ (v : Json) (i : Issue), Issue.ofJson? v = some i →
      Issue.ofJson? i.toJson = some i ∧
        (Issue.ofJson? i.toJson).map Issue.toJson = some i.toJson) ∧
    (∀ (v : Json) (s : Status), Status.ofJson? v = some s →
      Status.ofJson? s.toJson = some s ∧
        (Status.ofJson? s.toJson).map Status.toJson = some s.toJson) := by
  refine ⟨fun i hi => ?_, fun s hs => ?_, fun v i h => ?_, fun v s h => ?_⟩
  · have hr := Issue.ofJson?_toJson hi
    exact ⟨hr, Issue.ofJson?_tabled hr⟩
  · have hr := Status.ofJson?_toJson hs
    exact ⟨hr, Status.ofJson?_tabled hr⟩
  · have hr := Issue.ofJson?_toJson (Issue.tidy_of_ofJson? h)
    exact ⟨hr, by rw [hr]; rfl⟩
  · have hr := Status.ofJson?_toJson (Status.tidy_of_ofJson? h)
    exact ⟨hr, by rw [hr]; rfl⟩

/-- An issue without a feature and at the largest column, and a status with statuses inside those of
its keys. -/
theorem exchange_reads_back_nested :
    ∃ (i : Issue) (s : Status), i.Tidy ∧ s.Tidy ∧
      i = ⟨.propertyValue, "display", some "grid", "css.properties.display.grid", none, .low,
        some "2017-10-17", none, some ⟨1, 18446744073709551615⟩,
        some [("chrome", "57"), ("safari", "10.1")]⟩ ∧
      s = { level := .high, support := some [], byKey := some [("", { level := .low }),
        ("k", { byKey := some [("k", { lowDate := some "" })] })] } ∧
      Issue.ofJson? i.toJson = some i ∧ Status.ofJson? s.toJson = some s := by
  have hflat : ∀ s : Status, s.support = none → s.byKey = none → s.Tidy := by
    intro s hs hb
    refine .intro ?_ ?_ ?_ <;> simp [hs, hb]
  refine ⟨_, _, ?issue, ?status, rfl, rfl, (exchange_reads_back.1 _ ?issue).1,
    (exchange_reads_back.2.1 _ ?status).1⟩
  case issue =>
    rintro t ⟨⟩
    decide
  case status =>
    refine .intro ?_ ?_ ?_
    · rintro t ⟨⟩
      decide
    · rintro t ⟨⟩
      exact List.pairwise_pair.mpr (by decide)
    · rintro t ⟨⟩
      refine List.forall_mem_cons.mpr ⟨hflat _ rfl rfl, List.forall_mem_singleton.mpr (.intro ?_ ?_ ?_)⟩
      · rintro t ⟨⟩
      · rintro t ⟨⟩
        exact List.pairwise_singleton _ _
      · rintro t ⟨⟩
        exact List.forall_mem_singleton.mpr (hflat _ rfl rfl)

end BaselineAudit
