import BaselineAudit.Parsing.Grammar

/-!
# Reading tokens

Several tokens are followed through a text at once. `Lexicon.step` takes one character, and a token
is found where one of the followed patterns is done. Which tokens can be mistaken for each other is
worked out beforehand, pair by pair, as an `Overlap`.
-/

namespace BaselineAudit.Parsing

/-- A set of small numbers, one bit for each of them. -/
abbrev NatSet := Nat

namespace NatSet

/-- The set of one number. -/
def single (i : Nat) : NatSet := 1 <<< i

/-- The set holds a number. -/
def mem (i : Nat) (s : NatSet) : Bool := s.testBit i

/-- The sets share a number. -/
def meets (s t : NatSet) : Bool := s &&& t != 0

/-- The numbers below `n` that the set holds, in order. -/
def below (n : Nat) (s : NatSet) : List Nat := (List.range n).filter (s.testBit ·)

/-- The set of the numbers of a list. -/
def ofList (l : List Nat) : NatSet := l.foldl (fun s i => s ||| single i) 0

end NatSet

/-- A token that is being followed: what is left of its pattern, and whether blanks in front of it
may still be skipped. -/
structure Thread where
  token : Nat
  rest : Pattern
  atBlanks : Bool
  deriving DecidableEq

/-- What a character does to the followed tokens. -/
structure Transition where
  threads : List Thread
  /-- Is the character a blank in front of the token for all of them? -/
  isBlank : Bool
  /-- The highest precedence of a token that takes the character. -/
  precedence : Int

/-- The tokens of a grammar. -/
structure Lexicon where
  blanks : CharSet
  tokens : Array Token

namespace Lexicon

/-- What is left of a pattern once it has taken a character. -/
def derivatives (c : Char) (p : Pattern) : List Pattern :=
  (p.step none (some c)).filterMap id

/-- The pattern is done. -/
def isDone (p : Pattern) : Bool := (p.step none none).contains none

/-- The token with a number. One that is missing is an empty text. -/
def token (l : Lexicon) (i : Nat) : Token := l.tokens.getD i (.text "")

/-- The start of a token. -/
def start (l : Lexicon) (i : Nat) : Thread :=
  let t := l.token i
  ⟨i, t.pattern, !t.immediate⟩

/-- The ways in which a thread takes a character: is it a blank, the precedence, and the thread that
goes on. -/
def threadStep (l : Lexicon) (c : Char) (t : Thread) : List (Bool × Int × Thread) :=
  (if t.atBlanks && l.blanks.contains c then [(true, 0, t)] else []) ++
    (derivatives c t.rest).map fun rest =>
      (false, (l.token t.token).precedence, ⟨t.token, rest, false⟩)

/-- What a character does to the followed tokens. -/
def step (l : Lexicon) (c : Char) (threads : List Thread) : Option Transition :=
  match threads.flatMap (l.threadStep c) with
  | [] => none
  | first :: rest =>
    some
      { threads := distinct ((first :: rest).map (·.2.2))
        isBlank := (first :: rest).all (·.1)
        precedence := rest.foldl (fun p w => max p w.2.1) first.2.1 }

/-- The tokens that are done, with their precedences. -/
def completions (l : Lexicon) (threads : List Thread) : List (Nat × Int) :=
  threads.filterMap fun t =>
    if isDone t.rest then some (t.token, (l.token t.token).precedence) else none

/-- Of two tokens that are done at one place, the first one wins. -/
def prefers (l : Lexicon) (a b : Nat × Int) : Bool :=
  if a.2 ≠ b.2 then b.2 < a.2
  else
    let ra := (l.token a.1).rank
    let rb := (l.token b.1).rank
    if ra ≠ rb then rb < ra else a.1 < b.1

/-- The token that wins among those that are done at one place. -/
def winner (l : Lexicon) (done : List (Nat × Int)) : Option (Nat × Int) :=
  done.foldl
    (fun best d =>
      match best with
      | some b => if l.prefers b d then best else some d
      | none => some d)
    none

/-- It is better to go on than to stop at a token that is done. `skipping` says that blanks may be
skipped here. -/
def goesOn (t : Transition) (done : Nat × Int) (skipping : Bool) : Bool :=
  if t.precedence < done.2 then false
  else if t.precedence = done.2 then
    if t.isBlank then false
    else !skipping || t.threads.any (·.token == done.1)
  else true

/-- May blanks be skipped here? -/
def skipping (threads : List Thread) : Bool := threads.any (·.atBlanks)

end Lexicon

/-- How one token can be mistaken for another. -/
structure Overlap where
  /-- It can stop where the other one would go on. -/
  isPrefix : Bool := false
  /-- It can go on where the other one is done. -/
  continues : Bool := false
  /-- It can go on with a character that may follow the other one. -/
  continuesValidly : Bool := false
  /-- It can take blanks that may stand in front of the other one. -/
  takesBlanks : Bool := false
  /-- It wins over the other one on the same text. -/
  sameText : Bool := false

namespace Overlap

/-- What either of two finds. -/
def or (a b : Overlap) : Overlap :=
  ⟨a.isPrefix || b.isPrefix, a.continues || b.continues, a.continuesValidly || b.continuesValidly,
    a.takesBlanks || b.takesBlanks, a.sameText || b.sameText⟩

/-- The token can be read in place of the other one. -/
def conflicts (o : Overlap) : Bool := o.continuesValidly || o.takesBlanks || o.sameText

/-- The tokens have a text in common, or one can be a part of the other. -/
def overlaps (o : Overlap) : Bool := o.takesBlanks || o.isPrefix || o.sameText || o.continues

end Overlap

namespace Lexicon

/-- A character from each class of characters that the tokens cannot tell apart. -/
def representatives (l : Lexicon) : List Char :=
  let borders := l.tokens.toList.foldl (fun b t => b ++ t.pattern.borders)
    (l.blanks.borders)
  (distinct (0 :: borders)).map Char.ofNat

/-- The characters of `reps` with which a token can start. -/
def startsWith (l : Lexicon) (reps : List Char) (i : Nat) : List Char :=
  reps.filter fun c => (l.step c [l.start i]).isSome

/-- What two tokens have in common at one place: `i` is the token that `Overlap` speaks of first,
and `followI`, `followJ` are the characters that may follow each of them. -/
def overlapAt (l : Lexicon) (reps : List Char) (i j : Nat) (followI followJ : List Char)
    (threads : List Thread) : (Overlap × Overlap) × List (List Thread) :=
  let skips := skipping threads
  let done := l.completions threads
  let first :=
    match done with
    | [] => ({}, {})
    | d :: rest =>
      if skips then
        if d.1 = i then ({ takesBlanks := true }, {}) else ({}, { takesBlanks := true })
      else if rest.any (·.1 != d.1) then
        match l.winner done with
        | some w =>
          if w.1 = i then ({ sameText := true }, {}) else ({}, { sameText := true })
        | none => ({}, {})
      else ({}, {})
  let stop := if skips then none else l.winner done
  reps.foldl
    (fun ((a, b), next) c =>
      match l.step c threads with
      | none => ((a, b), next)
      | some t =>
        let next := t.threads :: next
        match stop with
        | none => ((a, b), next)
        | some d =>
          if t.threads.any (·.token == d.1) then ((a, b), next)
          else if goesOn t d skips then
            -- the other token goes on where `d` is done
            if d.1 = j then
              let o : Overlap := { continues := true, continuesValidly := followJ.contains c }
              ((a.or o, b), next)
            else
              let o : Overlap := { continues := true, continuesValidly := followI.contains c }
              ((a, b.or o), next)
          else if d.1 = i then ((a.or { isPrefix := true }, b), next)
          else ((a, b.or { isPrefix := true }), next))
    (first, [])

/-- Looks at all places that two tokens can reach together. -/
def overlapFrom (l : Lexicon) (reps : List Char) (i j : Nat) (followI followJ : List Char) :
    (fuel : Nat) → (pending visited : List (List Thread)) → Overlap × Overlap
  | 0, _, _ => ({}, {})
  | _ + 1, [], _ => ({}, {})
  | fuel + 1, threads :: pending, visited =>
    let live := distinct (threads.map (·.token))
    if visited.contains threads || live.length < 2 then
      overlapFrom l reps i j followI followJ fuel pending visited
    else
      let ((a, b), next) := l.overlapAt reps i j followI followJ threads
      let (a', b') :=
        overlapFrom l reps i j followI followJ fuel (next ++ pending) (threads :: visited)
      (a.or a', b.or b')

/-- How token `i` can be mistaken for token `j`, and the other way round. -/
def overlap (l : Lexicon) (reps : List Char) (i j : Nat) (followI followJ : List Char) :
    Overlap × Overlap :=
  overlapFrom l reps i j followI followJ 100000 [[l.start j, l.start i]] []

end Lexicon

end BaselineAudit.Parsing
