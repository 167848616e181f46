import BaselineAudit.Text.Blank
import BaselineAudit.Text.Letter

/-!
# Text patterns

Patterns over characters, with anchors and greedy repetition. Of several ways to match, the first one
counts: alternatives are tried in order, and a repetition goes on before it stops.

* `Pattern.step` gives the ways in which a pattern matches at a place, in order: it is done there, or
  it takes the next character and a rest of it remains.
* `Pattern.matchLength` follows all ways at once, from a place on.
* `Pattern.allMatches` are the matches in a text, from left to right, each behind the one before it.
-/

namespace BaselineAudit

/-- A set of characters. -/
inductive CharSet where
  | one (c : Char)
  | range (lo hi : Char)
  /-- Blanks. -/
  | space
  /-- Characters of words. -/
  | word
  /-- Decimal digits. -/
  | digit
  | union (a b : CharSet)
  | compl (a : CharSet)
  deriving DecidableEq, Repr

namespace CharSet

/-- The set holds a character. -/
def contains : CharSet → Char → Bool
  | one c, d => c == d
  | range lo hi, d => lo ≤ d && d ≤ hi
  | space, d => Text.isBlank d
  | word, d => Text.isWordChar d
  | digit, d => Text.isDigit d
  | union a b, d => a.contains d || b.contains d
  | compl a, d => !a.contains d

/-- No character at all. -/
def none : CharSet := range 'b' 'a'

/-- The characters of a text. -/
def ofText (s : String) : CharSet := s.toList.foldr (fun c t => union (one c) t) none

/-- The characters of several sets. -/
def unions (sets : List CharSet) : CharSet := sets.foldr union none

/-- Every character but those of a text. -/
def except (s : String) : CharSet := compl (ofText s)

/-- Every character but the end of a line. -/
def inLine : CharSet := compl (one '\n')

/-- Both cases of a character. The long s and the kelvin sign are forms of `s` and `k`. -/
def anyCase (c : Char) : CharSet :=
  let both := union (one c.toLower) (one c.toUpper)
  if c.toLower == 's' then union both (one '\u017f')
  else if c.toLower == 'k' then union both (one '\u212a')
  else both

/-- Every ASCII letter, and the other forms of `s` and `k`. -/
def letterAnyCase : CharSet :=
  unions [range 'a' 'z', range 'A' 'Z', one '\u017f', one '\u212a']

/-- ASCII letters. -/
def asciiLetter : CharSet := union (range 'a' 'z') (range 'A' 'Z')

/-- The code points at which membership in a set can change. The classes of blanks, words and digits
do not count. -/
def borders : CharSet → List Nat
  | one c => [c.toNat, c.toNat + 1]
  | range lo hi => [lo.toNat, hi.toNat + 1]
  | union a b => a.borders ++ b.borders
  | compl a => a.borders
  | space | word | digit => []

end CharSet

/-- Places at which a pattern can be held fast. -/
inductive Anchor where
  | textStart
  | lineStart
  | lineEnd
  /-- Between a character of a word and one that is none. -/
  | wordEdge
  deriving DecidableEq, Repr

/-- The anchor holds between two characters, of which there are none at the ends of the text. -/
def Anchor.holds (before after : Option Char) : Anchor → Bool
  | textStart => before.isNone
  | lineStart => before.all (· == '\n')
  | lineEnd => after.all (· == '\n')
  | wordEdge => before.any Text.isWordChar != after.any Text.isWordChar

/-- A pattern over characters. -/
inductive Pattern where
  /-- Matches without taking a character. -/
  | empty
  | set (s : CharSet)
  | anchor (a : Anchor)
  | seq (p q : Pattern)
  | alt (p q : Pattern)
  | star (p : Pattern)
  deriving DecidableEq, Repr

namespace Pattern

/-- Patterns one behind the other. -/
def all : List Pattern → Pattern
  | [] => empty
  | [p] => p
  | p :: ps => seq p (all ps)

/-- The first of several patterns that matches. -/
def any : List Pattern → Pattern
  | [] => set .none
  | [p] => p
  | p :: ps => alt p (any ps)

/-- One or more. -/
def plus (p : Pattern) : Pattern := seq p (star p)

/-- One or none. -/
def opt (p : Pattern) : Pattern := alt p empty

/-- From one up to `n + 1` times. -/
def upTo (n : Nat) (p : Pattern) : Pattern :=
  match n with
  | 0 => p
  | n + 1 => seq p (opt (upTo n p))

/-- A text as it stands. -/
def text (s : String) : Pattern := all (s.toList.map fun c => set (.one c))

/-- A text in either case. -/
def textAnyCase (s : String) : Pattern := all (s.toList.map fun c => set (.anyCase c))

/-- One of several texts, as they stand. -/
def anyText (words : List String) : Pattern := any (words.map text)

/-- One of several texts, in either case. -/
def anyTextAnyCase (words : List String) : Pattern := any (words.map textAnyCase)

/-- The edge of a word. -/
def edge : Pattern := anchor .wordEdge

/-- A blank. -/
def space : Pattern := set .space

/-- Any blanks. -/
def spaces : Pattern := star space

/-- At least one blank. -/
def gap : Pattern := plus space

/-- At least one character of a word. -/
def word : Pattern := plus (set .word)

/-- A pattern behind another; one that is done leaves the second alone. -/
def followedBy (p q : Pattern) : Pattern := if p = empty then q else seq p q

/-- The ways in which a pattern matches between `before` and `after`, in order: `none` if it is done
there, and what is left of it once it has taken `after`. A repetition takes a character in each
turn. -/
def step (before after : Option Char) : Pattern → List (Option Pattern)
  | empty => [none]
  | set s => if after.any s.contains then [some empty] else []
  | anchor a => if a.holds before after then [none] else []
  | seq p q =>
    (step before after p).flatMap fun
      | none => step before after q
      | some p => [some (followedBy p q)]
  | alt p q => step before after p ++ step before after q
  | star p =>
    ((step before after p).filterMap fun o => o.map fun p' => some (followedBy p' (star p)))
      ++ [none]

/-- The rests in front of the first way that is done, each once, and whether there is such a way.
What comes behind a way that is done never counts. -/
def untilDone (seen : List Pattern) : List (Option Pattern) → List Pattern × Bool
  | [] => (seen.reverse, false)
  | none :: _ => (seen.reverse, true)
  | some p :: rest => untilDone (if seen.contains p then seen else p :: seen) rest

/-- Follows patterns through a text, of which `taken` characters are behind. `best` is the length of
the match that counts so far. -/
def follow (ways : List Pattern) (before : Option Char) (taken : Nat) (best : Option Nat) :
    List Char → Option Nat
  | [] =>
    if (untilDone [] (ways.flatMap (step before none))).2 then some taken else best
  | c :: cs =>
    let (ways, done) := untilDone [] (ways.flatMap (step before (some c)))
    let best := if done then some taken else best
    if ways.isEmpty then best else follow ways (some c) (taken + 1) best cs

/-- The number of characters that a pattern matches at the start of `cs`, which stands behind
`before`. -/
def matchLength (p : Pattern) (before : Option Char) (cs : List Char) : Option Nat :=
  follow [p] before 0 none cs

/-- A match: its characters, the one in front of what follows, and what follows. -/
structure Match where
  found : List Char
  rest : List Char
  deriving Repr

/-- The first match of at least one character in `cs`, which stands behind `before`. -/
def find? (p : Pattern) (before : Option Char) : List Char → Option Match
  | [] => none
  | c :: cs =>
    match matchLength p before (c :: cs) with
    | some (n + 1) => some ⟨c :: cs.take n, cs.drop n⟩
    | _ => find? p (some c) cs

/-- The matches in a text, from left to right, at most `limit` of them. -/
def matchesFrom (p : Pattern) : (limit : Nat) → Option Char → List Char → List Match
  | 0, _, _ => []
  | limit + 1, before, cs =>
    match find? p before cs with
    | none => []
    | some m => m :: matchesFrom p limit (m.found.getLast?.or before) m.rest

/-- The matches in a text, from left to right. -/
def allMatches (p : Pattern) (cs : List Char) : List Match := matchesFrom p cs.length none cs

/-- How many matches there are in a text, counted up to `cap`. -/
def count (p : Pattern) (cap : Nat) (cs : List Char) : Nat := (matchesFrom p cap none cs).length

/-- Is there a match in a text? -/
def occurs (p : Pattern) (cs : List Char) : Bool := (find? p none cs).isSome

/-- The code points at which a pattern can tell two characters apart. -/
def borders : Pattern → List Nat
  | empty | anchor _ => []
  | set s => s.borders
  | seq p q | alt p q => p.borders ++ q.borders
  | star p => p.borders

end Pattern

end BaselineAudit
