import BaselineAudit.Proofs.Json.Slots

/-!
# Exchanging statuses

A status is written as an object that leaves out what is absent, and its statuses of single keys are
written in the same way inside it.

* `Status.ofJson?_eq_some_iff`: the bound on the depth of a reading is always large enough, so a status
  is read as if there was none.
* `Status.Tidy`: the tables in a status, at every depth, are sorted by name.
* `Status.ofJson?_toJson`, `Status.tidy_of_ofJson?`: a tidy status is read back from what it is written
  as, and everything that is read is tidy.
* `Status.ofJson?_tabled`: the order of fields and fields that are skipped do not matter.
-/

namespace BaselineAudit

/-! ## Values without parts -/

namespace Json

theorem string?_tabled {v : Json} {s : String} (h : v.string? = some s) :
    v.tabled.string? = some s := by
  cases v <;> exact h

theorem textsToJson_ne_null (t : List (String × String)) : Status.textsToJson t ≠ .null := by
  simp [Status.textsToJson]

theorem tableOf?_textsToJson {t : List (String × String)} (h : Sorted t) :
    tableOf? string? (Status.textsToJson t) = some t :=
  tableOf?_entries h fun _ _ => rfl

theorem optionalSlot_string_map (x : Option String) :
    Status.optionalSlot string? (x.map Json.string) = some x :=
  optionalSlot_map (fun _ _ => rfl) (fun _ => by simp)

theorem optionalSlot_texts_map {x : Option (List (String × String))} (h : ∀ t ∈ x, Sorted t) :
    Status.optionalSlot (tableOf? string?) (x.map Status.textsToJson) = some x :=
  optionalSlot_map (fun t ht => tableOf?_textsToJson (h t ht)) textsToJson_ne_null

theorem optionalSlot_string_tabled {x : Option Json} {a : Option String}
    (h : Status.optionalSlot string? x = some a) :
    Status.optionalSlot string? (x.map tabled) = some a :=
  optionalSlot_tabled (fun _ _ _ => string?_tabled) h

theorem optionalSlot_texts_tabled {x : Option Json} {a : Option (List (String × String))}
    (h : Status.optionalSlot (tableOf? string?) x = some a) :
    Status.optionalSlot (tableOf? string?) (x.map tabled) = some a :=
  optionalSlot_tabled (fun _ _ _ => tableOf?_tabled fun _ _ _ => string?_tabled) h

/-- What a slot holds was read from the value in it. -/
theorem exists_of_optionalSlot {α : Type} {read : Json → Option α} {x : Option Json} {a : α}
    (h : Status.optionalSlot read x = some (some a)) : ∃ v ∈ x, read v = some a := by
  cases x with
  | none => exact absurd h (by simp [Status.optionalSlot])
  | some v =>
    by_cases hv : v = .null
    · subst hv
      exact absurd h (by simp [Status.optionalSlot, optional?])
    · have h' := (optional?_of_ne_null _ hv).symm.trans h
      obtain ⟨_, ha, he⟩ := Option.map_eq_some_iff.mp h'
      exact ⟨v, rfl, Option.some.inj he ▸ ha⟩

/-- A table in a slot is sorted. -/
theorem sorted_of_optionalSlot {α : Type} {read : Json → Option α} {x : Option Json}
    {a : Option (List (String × α))} (h : Status.optionalSlot (tableOf? read) x = some a) :
    ∀ t ∈ a, Sorted t := by
  rintro t rfl
  obtain ⟨v, -, hv⟩ := exists_of_optionalSlot h
  exact sorted_of_tableOf? hv

end Json

theorem Level.ofJson?_tabled {v : Json} {l : Level} (h : ofJson? v = some l) :
    ofJson? v.tabled = some l := by
  cases v <;> exact h

namespace Status

/-! ## Reading by fields -/

/-- What stands in each field of an exchanged status. -/
structure Slots where
  level : Option Json
  lowDate : Option Json
  highDate : Option Json
  support : Option Json
  byKey : Option Json

/-- The slots in the order of `fieldNames`. -/
def Slots.toList (x : Slots) : List (Option Json) :=
  [x.level, x.lowDate, x.highDate, x.support, x.byKey]

/-- The slots with each value changed. -/
def Slots.map (f : Json → Json) (x : Slots) : Slots :=
  ⟨x.level.map f, x.lowDate.map f, x.highDate.map f, x.support.map f, x.byKey.map f⟩

/-- What a status puts into each field. -/
def slots (s : Status) : Slots :=
  ⟨some s.level.toJson, s.lowDate.map .string, s.highDate.map .string, s.support.map textsToJson,
    s.byKey.map fun t => .object (entriesToJson t)⟩

/-- The slots hold a status whose statuses of single keys are read with `inner`. -/
structure Slots.Hold (inner : Json → Option Status) (x : Slots) (s : Status) : Prop where
  level : x.level.elim (some .unsupported) Level.ofJson? = some s.level
  lowDate : optionalSlot Json.string? x.lowDate = some s.lowDate
  highDate : optionalSlot Json.string? x.highDate = some s.highDate
  support : optionalSlot (Json.tableOf? Json.string?) x.support = some s.support
  byKey : optionalSlot (Json.tableOf? inner) x.byKey = some s.byKey

theorem ofJsonWithin?_succ_eq_some_iff {room : Nat} {v : Json} {s : Status} :
    ofJsonWithin? (room + 1) v = some s ↔
      ∃ x : Slots, v.slots? fieldNames = some x.toList ∧ x.Hold (ofJsonWithin? room) s := by
  rw [ofJsonWithin?]
  constructor
  · intro h
    obtain ⟨xs, hxs, h⟩ := Option.bind_eq_some_iff.mp h
    split at h
    next baseline lowDate highDate support byKey =>
      obtain ⟨level, hlevel, h⟩ : ∃ level,
          baseline.elim (some .unsupported) Level.ofJson? = some level ∧
          (optionalSlot Json.string? lowDate).bind (fun low =>
            (optionalSlot Json.string? highDate).bind fun high =>
            (optionalSlot (Json.tableOf? Json.string?) support).bind fun texts =>
            (optionalSlot (Json.tableOf? (ofJsonWithin? room)) byKey).bind fun keys =>
            some ⟨level, low, high, texts, keys⟩) = some s := by
        cases baseline <;> exact Option.bind_eq_some_iff.mp h
      obtain ⟨low, hlow, h⟩ := Option.bind_eq_some_iff.mp h
      obtain ⟨high, hhigh, h⟩ := Option.bind_eq_some_iff.mp h
      obtain ⟨texts, htexts, h⟩ := Option.bind_eq_some_iff.mp h
      obtain ⟨keys, hkeys, h⟩ := Option.bind_eq_some_iff.mp h
      cases h
      exact ⟨⟨baseline, lowDate, highDate, support, byKey⟩, hxs, hlevel, hlow, hhigh, htexts, hkeys⟩
    next => exact absurd h (by simp)
  · rintro ⟨x, hxs, hx⟩
    have hlevel := hx.level
    simp only [hxs, Slots.toList, Option.bind_eq_bind, Option.bind_some, hx.lowDate, hx.highDate,
      hx.support, hx.byKey]
    cases s
    cases hb : x.level with
    | none =>
      rw [hb] at hlevel
      cases hlevel
      rfl
    | some w =>
      rw [hb] at hlevel
      exact Option.bind_eq_some_iff.mpr ⟨_, hlevel, rfl⟩

/-- Statuses of single keys stand less deep than the status. -/
theorem depth_lt_of_byKey {v w : Json} {x : Slots} (h : v.slots? fieldNames = some x.toList)
    (hw : w ∈ x.byKey) : w.depth < v.depth := by
  refine Json.depth_lt_of_slots? h ?_
  rw [← Option.mem_def.mp hw, Slots.toList]
  simp

/-- What the slots of a value hold depends on how the values that are less deep are read. -/
theorem Slots.hold_congr {inner inner' : Json → Option Status} {v : Json} {x : Slots} {s : Status}
    (hx : v.slots? fieldNames = some x.toList)
    (h : ∀ u : Json, u.depth < v.depth → inner u = inner' u) : x.Hold inner s ↔ x.Hold inner' s := by
  have same : optionalSlot (Json.tableOf? inner) x.byKey =
      optionalSlot (Json.tableOf? inner') x.byKey := by
    cases hw : x.byKey with
    | none => rfl
    | some w =>
      have hwv := depth_lt_of_byKey hx hw
      have ht := Json.tableOf?_congr fun u hu => h u (Nat.lt_trans hu hwv)
      by_cases hn : w = .null
      · subst hn
        rfl
      · show Json.optional? _ w = Json.optional? _ w
        rw [Json.optional?_of_ne_null _ hn, Json.optional?_of_ne_null _ hn, ht]
  constructor
  · exact fun hold => { hold with byKey := same.symm.trans hold.byKey }
  · exact fun hold => { hold with byKey := same.trans hold.byKey }

/-- The bound on the depth of a reading does not matter if it is large enough. -/
theorem ofJsonWithin?_eq {room : Nat} {v : Json} (h : v.depth < room) :
    ofJsonWithin? room v = ofJson? v := by
  suffices H : ∀ (room room' : Nat) (v : Json), v.depth < room → v.depth < room' →
      ofJsonWithin? room v = ofJsonWithin? room' v from H room _ v h (Nat.lt_succ_self _)
  intro room
  induction room with
  | zero => exact fun _ v h _ => absurd h (Nat.not_lt_zero _)
  | succ room ih =>
    intro room' v h h'
    cases room' with
    | zero => exact absurd h' (Nat.not_lt_zero _)
    | succ room' =>
      refine Option.ext fun s => ?_
      rw [ofJsonWithin?_succ_eq_some_iff, ofJsonWithin?_succ_eq_some_iff]
      refine exists_congr fun x => and_congr_right fun hx => Slots.hold_congr hx fun u hu => ?_
      exact ih room' u (by omega) (by omega)

/-- A status is read as if there was no bound on its depth. -/
theorem ofJson?_eq_some_iff {v : Json} {s : Status} :
    ofJson? v = some s ↔ ∃ x : Slots, v.slots? fieldNames = some x.toList ∧ x.Hold ofJson? s := by
  rw [ofJson?, ofJsonWithin?_succ_eq_some_iff]
  exact exists_congr fun x => and_congr_right fun hx =>
    Slots.hold_congr hx fun u hu => ofJsonWithin?_eq hu

/-! ## Tidy statuses -/

/-- The tables in a status and in its statuses of single keys are sorted by name. -/
inductive Tidy : Status → Prop
  | intro {s : Status} (support : ∀ t ∈ s.support, Json.Sorted t)
      (byKey : ∀ t ∈ s.byKey, Json.Sorted t) (inner : ∀ t ∈ s.byKey, ∀ e ∈ t, Tidy e.2) : Tidy s

/-- Everything that is read is tidy. -/
theorem tidy_of_ofJson? {v : Json} {s : Status} (h : ofJson? v = some s) : s.Tidy := by
  induction hd : v.depth using Nat.strongRecOn generalizing v s with
  | ind depth ih =>
    subst hd
    obtain ⟨x, hx, hold⟩ := ofJson?_eq_some_iff.mp h
    refine .intro (Json.sorted_of_optionalSlot hold.support)
      (Json.sorted_of_optionalSlot hold.byKey) fun t ht e he => ?_
    obtain ⟨w, hw, hwt⟩ := Json.exists_of_optionalSlot (Option.mem_def.mp ht ▸ hold.byKey)
    obtain ⟨u, hu, hue⟩ := Json.exists_of_mem_tableOf? hwt he
    exact ih u.depth (Nat.lt_trans hu (depth_lt_of_byKey hx hw)) hue rfl

/-! ## Writing and reading back -/

theorem entriesToJson_eq (t : List (String × Status)) :
    entriesToJson t = t.map fun e => (e.1, toJson e.2) := by
  induction t with
  | nil => rfl
  | cons e t ih => rw [entriesToJson, ih, List.map_cons]

theorem toJson_eq (s : Status) : s.toJson = .object (Json.present fieldNames s.slots.toList) := by
  obtain ⟨level, lowDate, highDate, support, byKey⟩ := s
  cases byKey <;>
    simp [toJson, byKeyToJson, fieldNames, slots, Slots.toList, Json.present, optionalField]

theorem slots?_toJson (s : Status) : s.toJson.slots? fieldNames = some s.slots.toList := by
  rw [toJson_eq]
  exact Json.slots?_present (by decide) rfl

/-- A tidy status is read back from what it is written as. -/
theorem ofJson?_toJson {s : Status} (h : s.Tidy) : ofJson? s.toJson = some s := by
  induction h with
  | @intro s support byKey inner ih =>
    refine ofJson?_eq_some_iff.mpr ⟨s.slots, slots?_toJson s, ?_⟩
    exact {
      level := Level.ofJson?_toJson s.level
      lowDate := Json.optionalSlot_string_map s.lowDate
      highDate := Json.optionalSlot_string_map s.highDate
      support := Json.optionalSlot_texts_map support
      byKey := Json.optionalSlot_map
        (fun t ht => by
          rw [entriesToJson_eq]
          exact Json.tableOf?_entries (byKey t ht) (ih t ht))
        (fun _ => by simp) }

/-- The order of the fields, and fields that are skipped, do not matter. -/
theorem ofJson?_tabled {v : Json} {s : Status} (h : ofJson? v = some s) :
    ofJson? v.tabled = some s := by
  induction hd : v.depth using Nat.strongRecOn generalizing v s with
  | ind depth ih =>
    subst hd
    obtain ⟨x, hx, hold⟩ := ofJson?_eq_some_iff.mp h
    refine ofJson?_eq_some_iff.mpr ⟨x.map Json.tabled, Json.slots?_tabled hx, ?_⟩
    exact {
      level := by
        have hl := hold.level
        cases hx : x.level with
        | none => rw [hx] at hl; simpa [Slots.map, hx] using hl
        | some w => rw [hx] at hl; simpa [Slots.map, hx] using Level.ofJson?_tabled hl
      lowDate := Json.optionalSlot_string_tabled hold.lowDate
      highDate := Json.optionalSlot_string_tabled hold.highDate
      support := Json.optionalSlot_texts_tabled hold.support
      byKey := Json.optionalSlot_tabled
        (fun w hw _ => Json.tableOf?_tabled fun u hu a ha =>
          ih u.depth (Nat.lt_trans hu (depth_lt_of_byKey hx hw)) ha rfl) hold.byKey }

end Status

end BaselineAudit
