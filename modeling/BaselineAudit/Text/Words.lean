import BaselineAudit.Text.Blank
import BaselineAudit.Text.Case

/-!
# Words

The words of a text: those between blanks, and those of a name that runs them together, where a
capital starts a word.
-/

namespace BaselineAudit.Text

/-- The characters between gaps, as far as there are any. The run in front of the text is kept from
its end. -/
def runsFrom (isGap : Char → Bool) : (run cs : List Char) → List (List Char)
  | run, [] => if run.isEmpty then [] else [run.reverse]
  | run, c :: cs =>
    if isGap c then
      if run.isEmpty then runsFrom isGap [] cs else run.reverse :: runsFrom isGap [] cs
    else runsFrom isGap (c :: run) cs

/-- The characters between gaps, as far as there are any. -/
def runs (isGap : Char → Bool) (cs : List Char) : List (List Char) := runsFrom isGap [] cs

/-- A text on one line, with single spaces between its words. -/
def singleLine (s : String) : String :=
  " ".intercalate ((runs isBlank s.toList).map String.ofList)

/-- How many lines a text has. A newline at its end starts no further line. -/
def lineCount (s : String) : Nat :=
  let newlines := s.toList.count '\n'
  if s.isEmpty || s.toList.getLast? == some '\n' then newlines else newlines + 1

/-! ## Words of a name -/

/-- The case of the letters at the end of a word. -/
inductive Mode where
  /-- The word has no letters yet. -/
  | fresh
  | small
  | capital
  deriving DecidableEq, Repr

/-- The case at the end of a word with one more character. -/
def Mode.push (m : Mode) (c : Char) : Mode :=
  if isSmall c then .small else if isCapital c then .capital else m

/-- The words of a run of letters and digits. A word ends in front of a capital that follows small
letters, and in front of the last of several capitals if a small letter follows. The word so far is
kept from its end. -/
def nameWordsFrom : (mode : Mode) → (word cs : List Char) → List (List Char)
  | _, _, [] => []
  | _, word, [c] => [(c :: word).reverse]
  | mode, word, c :: next :: cs =>
    if mode.push c = .small && isCapital next then
      (c :: word).reverse :: nameWordsFrom .fresh [] (next :: cs)
    else if mode = .capital && isCapital c && isSmall next then
      word.reverse :: nameWordsFrom .fresh [c] (next :: cs)
    else nameWordsFrom (mode.push c) (c :: word) (next :: cs)

/-- The words of a name. -/
def nameWords (cs : List Char) : List (List Char) :=
  (runs (!isAlphanumeric ·) cs).flatMap (nameWordsFrom .fresh [])

/-- A word in small letters. A sigma has another form at the end of a word. -/
def smallWord : List Char → List Char
  | [] => []
  | [c] => if c = 'Σ' then ['ς'] else small c
  | c :: cs => small c ++ smallWord cs

/-- A name as small words with dashes between them. -/
def dashed (name : String) : String :=
  "-".intercalate ((nameWords name.toList).map fun w => String.ofList (smallWord w))

end BaselineAudit.Text
