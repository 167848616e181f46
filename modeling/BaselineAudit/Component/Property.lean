import BaselineAudit.Text.Words

/-!
# Names of style properties in scripts

A script writes `backgroundColor` for the property `background-color` and `WebkitTransition` for
`-webkit-transition`.
-/

namespace BaselineAudit.Component

/-- What the names of properties of one browser start with. -/
def vendors : List String := ["Webkit", "Moz", "ms", "O"]

/-- A key starts with the name of a vendor and a capital. -/
def isVendored (key : String) : Bool :=
  vendors.any fun v =>
    match Text.dropLeading v.toList key.toList with
    | some (c :: _) => c.isUpper
    | _ => false

/-- The property that a key of a style object sets. Custom properties stay as they are, and other
keys with a dash in them have small letters. -/
def propertyName (key : String) : String :=
  if (Text.dropLeading ['-', '-'] key.toList).isSome then key
  else if key.toList.contains '-' then key.toLower
  else if isVendored key then "-" ++ Text.dashed key
  else Text.dashed key

end BaselineAudit.Component
