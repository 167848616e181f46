/-!
# Tables of settings

The values of a settings file in TOML. A table remembers how it was begun, because that says who may
still add to it: a table has one header, and tables made by keys with dots are only added to by such
keys.
-/

namespace BaselineAudit.Toml

/-- How a table was begun. -/
inductive TableKind where
  /-- By its own header, or as the whole document. -/
  | headed
  /-- By the header of a table in it. -/
  | implied
  /-- By a key with dots. -/
  | dotted
  /-- As a value in braces. -/
  | braced
  deriving DecidableEq, Repr

/-- A value of a settings file. -/
inductive Value where
  | string (text : String)
  | integer (value : Int)
  /-- A number with a point or an exponent; it may be too large for a double. -/
  | float (overflows : Bool)
  | boolean (value : Bool)
  /-- A date, a time or both. -/
  | moment
  | array (items : List Value)
  /-- An array of tables with a header each. -/
  | tables (items : List Value)
  | table (kind : TableKind) (entries : List (String × Value))
  deriving Repr, Inhabited

/-- The keys of a table with their values. -/
abbrev Entries := List (String × Value)

/-- Changes the value of a key, which may have none yet. -/
def updateEntry (key : String) (change : Option Value → Option Value) : Entries → Option Entries
  | [] => do pure [(key, ← change none)]
  | (k, v) :: rest =>
    if k = key then do pure ((k, ← change (some v)) :: rest)
    else do pure ((k, v) :: (← updateEntry key change rest))

/-- Changes the last of several values. -/
def changeLast (change : Value → Option Value) : List Value → Option (List Value)
  | [] => none
  | [v] => do pure [← change v]
  | v :: rest => do pure (v :: (← changeLast change rest))

/-- May a path lead into a table? A key with dots only leads into tables that have no header. -/
def TableKind.isOpen (byDots : Bool) : TableKind → Bool
  | headed => !byDots
  | implied | dotted => true
  | braced => false

/-- Changes the table at a path. Tables on the path that are missing are begun, and of an array of
tables the last one counts. -/
def descend (byDots : Bool) (change : Value → Option Value) : List String → Value → Option Value
  | [], v => change v
  | key :: path, .table kind entries => do
    let enter : Option Value → Option Value
      | none => descend byDots change path (.table (if byDots then .dotted else .implied) [])
      | some (.table kind entries) =>
        if kind.isOpen byDots then descend byDots change path (.table kind entries) else none
      | some (.tables items) => (changeLast (descend byDots change path) items).map .tables
      | some _ => none
    pure (.table kind (← updateEntry key enter entries))
  | _ :: _, _ => none

/-- Changes the entry of a table with a key. -/
def changeEntry (key : String) (change : Option Value → Option Value) : Value → Option Value
  | .table kind entries => do pure (.table kind (← updateEntry key change entries))
  | _ => none

/-- Gives a new key a value. -/
def addNew (v : Value) : Option Value → Option Value
  | none => some v
  | some _ => none

/-- Gives the key at the end of a path a value. Keys with dots add to tables of their own only. -/
def assign (path : List String) (key : String) (v : Value) (t : Value) : Option Value :=
  let add : Value → Option Value
    | .table kind entries =>
      if (kind == .dotted) == !path.isEmpty then
        changeEntry key (addNew v) (.table kind entries)
      else none
    | _ => none
  descend true add path t

/-- A header begins a table, or is the header of one that its parts began. -/
def beginTable : Option Value → Option Value
  | none => some (.table .headed [])
  | some (.table .implied entries) => some (.table .headed entries)
  | some _ => none

/-- A header begins the next table of an array. -/
def beginItem : Option Value → Option Value
  | none => some (.tables [.table .headed []])
  | some (.tables items) => some (.tables (items ++ [.table .headed []]))
  | some _ => none

end BaselineAudit.Toml
