/-!
# Parts of a text by bytes

The characters between two offsets that count bytes of UTF-8. There are none if an offset is behind
the text or within a character.
-/

namespace BaselineAudit.Text

/-- How many bytes characters take. -/
def byteSize (cs : List Char) : Nat := (cs.map Char.utf8Size).foldr (· + ·) 0

/-- The characters behind the first `n` bytes. -/
def dropBytes? : (n : Nat) → List Char → Option (List Char)
  | 0, cs => some cs
  | _ + 1, [] => none
  | n + 1, c :: cs => if c.utf8Size ≤ n + 1 then dropBytes? (n + 1 - c.utf8Size) cs else none

/-- The characters of the first `n` bytes. -/
def takeBytes? : (n : Nat) → List Char → Option (List Char)
  | 0, _ => some []
  | _ + 1, [] => none
  | n + 1, c :: cs =>
    if c.utf8Size ≤ n + 1 then (takeBytes? (n + 1 - c.utf8Size) cs).map (c :: ·) else none

/-- The characters from one offset to another. -/
def slice? (cs : List Char) (start stop : Nat) : Option (List Char) :=
  if start ≤ stop then (dropBytes? start cs).bind (takeBytes? (stop - start)) else none

/-- The characters in front of the first one with a property, if there is one. -/
def beforeFirst? (p : Char → Bool) : List Char → Option (List Char)
  | [] => none
  | c :: cs => if p c then some [] else (beforeFirst? p cs).map (c :: ·)

/-- The characters in front of the last place where two given ones stand, if there is one. -/
def beforeLastPair? (a b : Char) : List Char → Option (List Char)
  | c :: d :: cs =>
    match beforeLastPair? a b (d :: cs) with
    | some front => some (c :: front)
    | none => if c = a && d = b then some [] else none
  | _ => none

end BaselineAudit.Text
