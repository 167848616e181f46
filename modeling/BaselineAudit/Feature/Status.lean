import BaselineAudit.Feature.Level

/-!
# Support statuses

What is known about the support of a feature, or of one of its compatibility keys.
-/

namespace BaselineAudit

/-- The support status of a feature, or of a single compatibility key. -/
structure Status where
  level : Level := .unsupported
  /-- Since when the feature is newly available. -/
  lowDate : Option String := none
  /-- Since when the feature is widely available. -/
  highDate : Option String := none
  /-- The first version of each browser that supports it, sorted by browser. -/
  support : Option (List (String × String)) := none
  /-- The statuses of single keys, sorted by key. -/
  byKey : Option (List (String × Status)) := none
  deriving Inhabited

namespace Status

/-- The status without the statuses of single keys. -/
def flat (s : Status) : Status := { s with byKey := none }

/-- The fields of an exchanged status. -/
def fieldNames : List String :=
  ["baseline", "baseline_low_date", "baseline_high_date", "support", "by_compat_key"]

/-- The field of a value that may be absent. -/
def optionalField (name : String) : Option Json → List (String × Json)
  | none => []
  | some v => [(name, v)]

/-- A table of texts. -/
def textsToJson (t : List (String × String)) : Json :=
  .object (t.map fun e => (e.1, .string e.2))

mutual

/-- A status as it is exchanged. -/
def toJson : Status → Json
  | ⟨level, lowDate, highDate, support, byKey⟩ =>
    .object
      ([("baseline", level.toJson)]
        ++ optionalField "baseline_low_date" (lowDate.map .string)
        ++ optionalField "baseline_high_date" (highDate.map .string)
        ++ optionalField "support" (support.map textsToJson)
        ++ byKeyToJson byKey)

/-- The field with the statuses of single keys, if there are any. -/
def byKeyToJson : Option (List (String × Status)) → List (String × Json)
  | none => []
  | some entries => [("by_compat_key", .object (entriesToJson entries))]

/-- The statuses of single keys, in order. -/
def entriesToJson : List (String × Status) → List (String × Json)
  | [] => []
  | (key, status) :: rest => (key, toJson status) :: entriesToJson rest

end

/-- A field that may be absent or `null`. -/
def optionalSlot {α : Type} (read : Json → Option α) : Option Json → Option (Option α)
  | none => some none
  | some v => v.optional? read

/-- Reads an exchanged status whose statuses of single keys stand at most `room` deep. -/
def ofJsonWithin? : (room : Nat) → Json → Option Status
  | 0, _ => none
  | room + 1, v => do
    let [baseline, lowDate, highDate, support, byKey] ← v.slots? fieldNames | none
    let level ← match baseline with
      | none => some .unsupported
      | some v => Level.ofJson? v
    let lowDate ← optionalSlot Json.string? lowDate
    let highDate ← optionalSlot Json.string? highDate
    let support ← optionalSlot (Json.tableOf? Json.string?) support
    let byKey ← optionalSlot (Json.tableOf? (ofJsonWithin? room)) byKey
    pure ⟨level, lowDate, highDate, support, byKey⟩

/-- Reads an exchanged status. Fields that are absent take their defaults, and an absent level means
`unsupported`. -/
def ofJson? (v : Json) : Option Status := ofJsonWithin? (v.depth + 1) v

end Status

end BaselineAudit
