import BaselineAudit.Css.Grammar

/-!
# Scanning selectors

A blank between two selectors is the descendant combinator if a selector starts behind it. A colon
belongs to a selector if a block follows before the declaration would end.
-/

namespace BaselineAudit.Css

open Parsing

/-- An ASCII blank. -/
def isBlank (c : Char) : Bool := blanks.contains c

/-- A block starts before a declaration would end. -/
def blockFollows : List Char → Bool
  | [] => false
  | c :: cs => if c = ';' || c = '\x7d' then false else c = '\x7b' || blockFollows cs

/-- A block starts behind the first character, before a declaration would end. The characters up to it
are not looked at for the end of the declaration if a block starts right behind them. -/
def blockFollowsColon : List Char → Bool
  | [] => false
  | c :: cs =>
    if c = ';' || c = '\x7d' then false else cs.head? = some '\x7b' || blockFollowsColon cs

/-- Characters with which a selector can start behind a blank. -/
def startsSelector (c : Char) : Bool := c.isAlphanum || "#.[-*&".toList.contains c

/-- Scans for a descendant combinator at blanks. The result is `none` if the blanks decide nothing. -/
def scanDescendant (p : Place) : Option (Option Place) :=
  let after := p.skipWhile isBlank
  match after.rest with
  | [] => none
  | c :: cs =>
    if startsSelector c then some (some after)
    else if c = ':' then
      if (cs.head?.any isBlank) then some none
      else some (if blockFollows cs then some after else none)
    else none

/-- Scans for a colon that belongs to a selector, and gives its start and its end. -/
def scanColon (p : Place) : Option (Place × Place) :=
  let start := p.skipWhile isBlank
  match start.rest with
  | ':' :: cs =>
    if cs.head? = some ':' then none
    else if blockFollowsColon cs then some (start, start.next) else none
  | _ => none

/-- The scanner of style sheets, which remembers nothing. -/
def scan (_ : Unit) (wanted : NatSet) (p : Place) : Option (Scanned Unit) :=
  let p := Language.skipMark p
  if wanted.mem 2 then none
  else
    let colon := fun (_ : Unit) =>
      if wanted.mem 1 then
        (scanColon p).map fun (start, stop) => ⟨1, start, stop, ()⟩
      else none
    if wanted.mem 0 && p.head?.any isBlank then
      match scanDescendant p with
      | some (some after) => some ⟨0, after, after, ()⟩
      | some none => none
      | none => colon ()
    else colon ()

/-- The language of style sheets. -/
def language : Thunk (Parsing.Language Unit) :=
  Thunk.mk fun _ => { table := .ofGrammar grammar, initial := (), scan }

end BaselineAudit.Css
