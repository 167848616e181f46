import BaselineAudit.Feature.Status
import BaselineAudit.Json.Reader

/-!
# The catalog of features

The table of feature records that a data set publishes. Records that do not have the form of a
feature are left out; they do not spoil the others.
-/

namespace BaselineAudit

/-- What a record of the catalog stands for. -/
inductive RecordKind where
  | feature
  | moved
  | split
  /-- A kind that this version does not know. -/
  | other
  deriving DecidableEq, Repr

/-- A record of the catalog. -/
structure Record where
  kind : Option RecordKind := none
  name : Option String := none
  /-- The compatibility keys that make up the feature. -/
  keys : Option (List String) := none
  status : Option Status := none
  deriving Inhabited

namespace RecordKind

/-- A kind as it is written. -/
def name : RecordKind → String
  | feature => "feature"
  | moved => "moved"
  | split => "split"
  | other => "other"

/-- Reads a kind; every word is one. -/
def ofJson? (v : Json) : Option RecordKind :=
  v.choice?.map fun
    | "feature" => feature
    | "moved" => moved
    | "split" => split
    | _ => other

end RecordKind

namespace Record

/-- Only features are looked up; the other kinds stand for renamed or divided ones. -/
def isFeature (r : Record) : Bool := r.kind == some .feature

/-- Reads a record, of which every field may be absent. -/
def ofJson? (v : Json) : Option Record := do
  let [kind, name, keys, status] ←
    v.slots? ["kind", "name", "compat_features", "status"] | none
  let kind ← Status.optionalSlot RecordKind.ofJson? kind
  let name ← Status.optionalSlot Json.string? name
  let keys ← Status.optionalSlot (Json.arrayOf? Json.string?) keys
  let status ← Status.optionalSlot Status.ofJson? status
  pure ⟨kind, name, keys, status⟩

end Record

/-- The feature records, sorted by feature id. -/
structure Catalog where
  records : List (String × Record) := []
  deriving Inhabited

namespace Catalog

/-- The record of a feature. -/
def find? (c : Catalog) (id : String) : Option Record := Json.find? id c.records

/-- The number of records. -/
def size (c : Catalog) : Nat := c.records.length

/-- The catalog of a table of feature records: those that can be read, by id. -/
def ofEntries (entries : List (String × Json)) : Catalog :=
  ⟨(Json.table entries).filterMap fun e => (Record.ofJson? e.2.tabled).map (e.1, ·)⟩

/-- The catalog in a data set, which is an object that may have a field `features`. -/
def ofJson? (v : Json) : Option Catalog := do
  let [features] ← v.slots? ["features"] | none
  match features with
  | none => pure {}
  | some (.object entries) =>
    if Json.fieldsReadable entries then pure (ofEntries entries) else none
  | some _ => none

/-- Reads a data set. -/
def parse? (text : String) : Option Catalog := (Json.parse? text).bind ofJson?

end Catalog

end BaselineAudit
