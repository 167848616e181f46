/-!
# Positions in a text

Lines and columns count from 1 and columns count bytes of UTF-8. `LineIndex.locate` turns a byte
offset into a location, and an `Origin` says where the text of a snippet stands in the document it
was taken from.
-/

namespace BaselineAudit

/-- A line and a column, both counted from 1. -/
structure Location where
  line : Nat
  column : Nat
  deriving DecidableEq, Repr, Inhabited

namespace Location

/-- A location as it is shown. -/
def text (l : Location) : String := l.line.repr ++ ":" ++ l.column.repr

end Location

/-- The byte offsets at which the lines of a text start, in order. The first of them is 0. -/
structure LineIndex where
  starts : Array Nat

namespace LineIndex

/-- The offset behind each newline of a text that stands at `offset`. -/
def startsFrom (offset : Nat) : List Char → List Nat
  | [] => []
  | c :: cs =>
    let next := offset + c.utf8Size
    if c = '\n' then next :: startsFrom next cs else startsFrom next cs

/-- The lines of a text. -/
def ofText (s : String) : LineIndex := ⟨(0 :: startsFrom 0 s.toList).toArray⟩

/-- Halves the range from `lo` to `hi` until the last line that starts at or before `offset` is
found. Line `lo` does so, and line `hi` and those behind it do not. -/
def search (i : LineIndex) (offset : Nat) : (fuel lo hi : Nat) → Nat
  | 0, lo, _ => lo
  | fuel + 1, lo, hi =>
    if hi ≤ lo + 1 then lo
    else
      let mid := (lo + hi) / 2
      if i.starts.getD mid 0 ≤ offset then search i offset fuel mid hi
      else search i offset fuel lo mid

/-- The location of a byte offset. -/
def locate (i : LineIndex) (offset : Nat) : Location :=
  let line := i.search offset i.starts.size 0 i.starts.size
  ⟨line + 1, offset - i.starts.getD line 0 + 1⟩

end LineIndex

/-- Where the text of a snippet comes from. -/
inductive Origin where
  /-- The text is the document, or has no better place. -/
  | whole
  /-- The text stands in the document as it is, from this location on. -/
  | verbatim (start : Location)
  /-- The text is generated, and each of its lines has one location in the document. -/
  | lines (anchors : List Location)
  deriving DecidableEq, Repr

namespace Origin

/-- The location in the document of a location in the snippet. -/
def map : Origin → Location → Location
  | whole, l => l
  | verbatim start, l =>
    if l.line = 1 then ⟨start.line, start.column + l.column - 1⟩
    else ⟨start.line + l.line - 1, l.column⟩
  | lines anchors, l => (anchors[l.line - 1]?).getD l

end Origin

end BaselineAudit
