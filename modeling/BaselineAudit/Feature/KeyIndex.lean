import Std.Data.TreeMap
import BaselineAudit.Feature.Catalog

/-!
# From compatibility keys to features
-/

namespace BaselineAudit

/-- Which feature each compatibility key belongs to. -/
structure KeyIndex where
  entries : Std.TreeMap String String := {}
  deriving Inhabited

namespace KeyIndex

/-- Every key that a feature lists, with the id of the feature, in the order of the catalog. -/
def listings (c : Catalog) : List (String × String) :=
  c.records.flatMap fun (id, record) =>
    if record.isFeature then (record.keys.getD []).map (·, id) else []

/-- The index of a catalog. A key that several features list belongs to the last of them. -/
def ofCatalog (c : Catalog) : KeyIndex :=
  ⟨(listings c).foldl (fun t e => t.insert e.1 e.2) {}⟩

/-- The feature that a key belongs to. -/
def lookup (i : KeyIndex) (key : String) : Option String := i.entries[key]?

/-- The number of keys. -/
def size (i : KeyIndex) : Nat := i.entries.size

end KeyIndex

end BaselineAudit
