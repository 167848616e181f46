import BaselineAudit.Feature.Status
import BaselineAudit.Text.Location

/-!
# Usages and issues

A usage is a place where a text uses something of the web platform. An issue is a usage whose level
is below the threshold.
-/

namespace BaselineAudit

/-- What kind of thing a usage uses. -/
inductive UsageKind where
  | property
  | propertyValue
  | element
  | attr
  | builtin
  | api
  deriving DecidableEq, Repr

namespace UsageKind

/-- A kind as it is written. -/
def name : UsageKind → String
  | property => "property"
  | propertyValue => "property-value"
  | element => "element"
  | attr => "attribute"
  | builtin => "js-builtin"
  | api => "js-api"

/-- The kind with a name. -/
def ofName? : String → Option UsageKind
  | "property" => some property
  | "property-value" => some propertyValue
  | "element" => some element
  | "attribute" => some attr
  | "js-builtin" => some builtin
  | "js-api" => some api
  | _ => none

/-- Reads an exchanged kind. -/
def ofJson? (v : Json) : Option UsageKind := v.choice?.bind ofName?

end UsageKind

/-- A place where a text uses something of the web platform. -/
structure Usage where
  kind : UsageKind
  property : String
  value : Option String
  /-- The compatibility key of what is used. -/
  key : String
  location : Option Location
  deriving DecidableEq, Repr

namespace Usage

/-- A CSS property. -/
def ofProperty (name : String) (location : Location) : Usage :=
  ⟨.property, name, none, "css.properties." ++ name, some location⟩

/-- A value of a CSS property. -/
def ofPropertyValue (name value : String) (location : Location) : Usage :=
  ⟨.propertyValue, name, some value, "css.properties." ++ name ++ "." ++ value, some location⟩

/-- An HTML element. -/
def ofElement (name : String) : Usage := ⟨.element, name, none, "html.elements." ++ name, none⟩

/-- An attribute of an HTML element. -/
def ofAttribute (name : String) : Usage :=
  ⟨.attr, name, none, "html.global_attributes." ++ name, none⟩

/-- A global name of a script. -/
def ofBuiltin (name : String) (location : Location) : Usage :=
  ⟨.builtin, name, none, "javascript.builtins." ++ name, some location⟩

/-- A member of a global object of a script. -/
def ofApi (object member : String) (location : Location) : Usage :=
  ⟨.api, object, some member, "api." ++ object ++ "." ++ member, some location⟩

end Usage

/-- A usage whose level is below the threshold. -/
structure Issue where
  kind : UsageKind
  property : String
  value : Option String
  key : String
  /-- The feature that the key belongs to. -/
  feature : Option String
  level : Level
  lowDate : Option String
  highDate : Option String
  location : Option Location
  /-- The first version of each browser that supports it, sorted by browser. -/
  support : Option (List (String × String))
  deriving DecidableEq, Repr

namespace Location

/-- A location as it is exchanged. -/
def toJson (l : Location) : Json :=
  .object [("line", .natural l.line), ("column", .natural l.column)]

/-- Reads an exchanged location. -/
def ofJson? (v : Json) : Option Location := do
  let [some line, some column] ← v.slots? ["line", "column"] | none
  pure ⟨← line.natural?, ← column.natural?⟩

end Location

namespace Issue

/-- The fields of an exchanged issue. -/
def fieldNames : List String :=
  ["kind", "property", "value", "compatibilityKey", "featureId", "detectedBaseline",
    "baselineLowDate", "baselineHighDate", "location", "support"]

/-- The fields of an issue as they are exchanged. The feature is always present; other fields that are
absent are left out. -/
def fields (i : Issue) : List (String × Json) :=
  [("kind", .string i.kind.name), ("property", .string i.property)]
    ++ Status.optionalField "value" (i.value.map .string)
    ++ [("compatibilityKey", .string i.key),
      ("featureId", (i.feature.map Json.string).getD .null),
      ("detectedBaseline", i.level.toJson)]
    ++ Status.optionalField "baselineLowDate" (i.lowDate.map .string)
    ++ Status.optionalField "baselineHighDate" (i.highDate.map .string)
    ++ Status.optionalField "location" (i.location.map Location.toJson)
    ++ Status.optionalField "support" (i.support.map Status.textsToJson)

/-- An issue as it is exchanged. -/
def toJson (i : Issue) : Json := .object i.fields

/-- Reads an exchanged issue. -/
def ofJson? (v : Json) : Option Issue := do
  let [some kind, some property, value, some key, feature, some level, lowDate, highDate,
    location, support] ← v.slots? fieldNames | none
  let kind ← UsageKind.ofJson? kind
  let property ← property.string?
  let value ← Status.optionalSlot Json.string? value
  let key ← key.string?
  let feature ← Status.optionalSlot Json.string? feature
  let level ← Level.ofJson? level
  let lowDate ← Status.optionalSlot Json.string? lowDate
  let highDate ← Status.optionalSlot Json.string? highDate
  let location ← Status.optionalSlot Location.ofJson? location
  let support ← Status.optionalSlot (Json.tableOf? Json.string?) support
  pure ⟨kind, property, value, key, feature, level, lowDate, highDate, location, support⟩

/-- The usage that an issue reports. -/
def usage (i : Issue) : Usage := ⟨i.kind, i.property, i.value, i.key, i.location⟩

/-- What is used, as it is shown. -/
def label (i : Issue) : String :=
  match i.value with
  | some value => i.property ++ ": " ++ value
  | none => i.property

end Issue

end BaselineAudit
