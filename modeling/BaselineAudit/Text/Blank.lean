/-!
# Blank characters

Which characters are blank, and texts without blanks at their ends.
-/

namespace BaselineAudit.Text

/-- The characters with the Unicode property `White_Space`. -/
def isBlank (c : Char) : Bool :=
  let n := c.toNat
  (9 ≤ n && n ≤ 13) || n == 0x20 || n == 0x85 || n == 0xA0 || n == 0x1680 ||
    (0x2000 ≤ n && n ≤ 0x200A) || n == 0x2028 || n == 0x2029 || n == 0x202F || n == 0x205F ||
    n == 0x3000

/-- A text without the blanks at its start. -/
def trimStart (s : String) : String :=
  String.ofList (s.toList.dropWhile isBlank)

/-- A text without the blanks at its end. -/
def trimEnd (s : String) : String :=
  String.ofList (s.toList.reverse.dropWhile isBlank).reverse

/-- A text without the blanks at its two ends. -/
def trim (s : String) : String := trimEnd (trimStart s)

/-- A text that holds blanks only. -/
def allBlank (s : String) : Bool := s.toList.all isBlank

/-- The form in which a setting is compared with the words it may be: trimmed, and in ASCII
lower case. -/
def normalWord (s : String) : String := (trim s).toLower

/-- The characters after `needle`, if `hay` starts with it. -/
def dropLeading : (needle hay : List Char) → Option (List Char)
  | [], hay => some hay
  | _ :: _, [] => none
  | n :: needle, h :: hay => if n == h then dropLeading needle hay else none

/-- Does `needle` stand somewhere in `hay`? -/
def occursIn (needle : List Char) : List Char → Bool
  | [] => needle.isEmpty
  | h :: hay => (dropLeading needle (h :: hay)).isSome || occursIn needle hay

/-- Does the text `needle` stand somewhere in the text `hay`? -/
def contains (hay needle : String) : Bool := occursIn needle.toList hay.toList

/-- Blanks in front of a text, up to a width counted in characters. -/
def padLeft (width : Nat) (s : String) : String :=
  String.ofList (List.replicate (width - s.length) ' ') ++ s

/-- Blanks behind a text, up to a width counted in characters. -/
def padRight (width : Nat) (s : String) : String :=
  s ++ String.ofList (List.replicate (width - s.length) ' ')

end BaselineAudit.Text
