/-!
# JSON values

The values that data sets, issues and reports are exchanged as, and how their fields are taken
apart. An object keeps its fields in the order of the text, repeated ones included; what a
repetition means is left to the reader of the object.
-/

namespace BaselineAudit

/-- A JSON value. -/
inductive Json where
  | null
  | bool (b : Bool)
  /-- A whole number from 0 to `2 ^ 64 - 1`, written without sign, point or exponent. -/
  | natural (n : Nat)
  /-- Any other number, as it is written. -/
  | numeral (text : String)
  | string (s : String)
  | array (items : List Json)
  | object (fields : List (String × Json))
  /-- A well-formed text that stands for no value: a number beyond the range of doubles, a string
  with half of a surrogate pair, or an array or object that is nested too deep. It does no harm
  where it is skipped. -/
  | unreadable
  deriving Inhabited

namespace Json

mutual

/-- A value has no unreadable part. -/
def readable : Json → Bool
  | .unreadable => false
  | .array items => allReadable items
  | .object fields => fieldsReadable fields
  | _ => true

/-- Each item of an array is readable. -/
def allReadable : List Json → Bool
  | [] => true
  | item :: items => readable item && allReadable items

/-- Each field of an object is readable. -/
def fieldsReadable : List (String × Json) → Bool
  | [] => true
  | (_, value) :: fields => readable value && fieldsReadable fields

end

mutual

/-- How many arrays and objects stand inside each other in a value. -/
def depth : Json → Nat
  | .array items => itemsDepth items + 1
  | .object fields => fieldsDepth fields + 1
  | _ => 0

/-- The greatest depth of an item. -/
def itemsDepth : List Json → Nat
  | [] => 0
  | item :: items => max (depth item) (itemsDepth items)

/-- The greatest depth of the value of a field. -/
def fieldsDepth : List (String × Json) → Nat
  | [] => 0
  | (_, value) :: fields => max (depth value) (fieldsDepth fields)

end

/-- Puts a field into a list sorted by name; a field of the same name is replaced. -/
def putField {α : Type} (name : String) (value : α) :
    List (String × α) → List (String × α)
  | [] => [(name, value)]
  | (n, v) :: rest =>
    if name < n then (name, value) :: (n, v) :: rest
    else if name = n then (name, value) :: rest
    else (n, v) :: putField name value rest

/-- A table sorted by name. Of two entries with one name the later one counts. -/
def table {α : Type} (entries : List (String × α)) : List (String × α) :=
  entries.foldl (fun t e => putField e.1 e.2 t) []

/-- The entry of a table under a name. -/
def find? {α : Type} (name : String) (t : List (String × α)) : Option α :=
  (t.find? (fun e => e.1 == name)).map (·.2)

mutual

/-- The same value with the fields of each object as a table. -/
def tabled : Json → Json
  | .array items => .array (tabledItems items)
  | .object fields => .object (table (tabledFields fields))
  | v => v

/-- `tabled` for each item of an array. -/
def tabledItems : List Json → List Json
  | [] => []
  | item :: items => tabled item :: tabledItems items

/-- `tabled` for the value of each field. -/
def tabledFields : List (String × Json) → List (String × Json)
  | [] => []
  | (name, value) :: fields => (name, tabled value) :: tabledFields fields

end

/-- The text of a string value. -/
def string? : Json → Option String
  | .string s => some s
  | _ => none

/-- The truth value of a boolean. -/
def bool? : Json → Option Bool
  | .bool b => some b
  | _ => none

/-- A whole number. -/
def natural? : Json → Option Nat
  | .natural n => some n
  | _ => none

/-- The items of an array, each read with `f`. -/
def arrayOf? {α : Type} (f : Json → Option α) : Json → Option (List α)
  | .array items => items.mapM f
  | _ => none

/-- An object as a table whose values are read with `f`. -/
def tableOf? {α : Type} (f : Json → Option α) : Json → Option (List (String × α))
  | .object fields => (fields.mapM fun e => (f e.2).map (e.1, ·)).map table
  | _ => none

/-- What `null` stands in for: an absent value. -/
def optional? {α : Type} (f : Json → Option α) : Json → Option (Option α)
  | .null => some none
  | v => (f v).map some

/-- The name of one of several alternatives: a string, or an object whose one field has that name
and holds `null`. -/
def choice? : Json → Option String
  | .string s => some s
  | .object [(name, .null)] => some name
  | _ => none

/-- The slots of a record with the given field names: what an object or an array gives for each
field. In an object each of these fields stands at most once and other fields are skipped; an array
gives the fields in order and has no more items than there are fields. -/
def slots? (names : List String) : Json → Option (List (Option Json))
  | .object fields =>
    names.mapM fun name =>
      match fields.filter (fun e => e.1 == name) with
      | [] => some none
      | [(_, v)] => some (some v)
      | _ => none
  | .array items =>
    if items.length ≤ names.length then
      some (items.map some ++ List.replicate (names.length - items.length) none)
    else none
  | _ => none

end Json

end BaselineAudit
