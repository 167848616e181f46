import BaselineAudit.Pattern.Basic

/-!
# Grammars

A grammar names the tokens of a language and gives rules for the larger parts. Tokens are read by
patterns, or by a scanner of the language's own; the latter are called external.

`Grammar.productions` turns the rules into plain productions: each repetition `repeat1 a` becomes a
rule `r → r r | a` of its own, and each choice becomes several productions. Symbols are numbered:
external tokens first, then the end of the text, then tokens, rules and repetitions.
-/

namespace BaselineAudit.Parsing

/-- The name under which a part of a text is shown. Parts that are only punctuation are not named
parts. -/
structure Label where
  name : String
  named : Bool := true
  deriving DecidableEq, Repr, Inhabited

/-- A token that is read by a pattern. -/
structure Token where
  /-- The name by which rules refer to it. -/
  id : String
  pattern : Pattern
  /-- Is it one fixed text? Such tokens win over patterns of the same length. -/
  isText : Bool := false
  /-- May no blanks stand in front of it? -/
  immediate : Bool := false
  precedence : Int := 0
  /-- The name under which it is shown, if it is. -/
  label : Option Label := none
  deriving DecidableEq

namespace Token

/-- A fixed text, which is shown as it is. -/
def text (s : String) : Token :=
  { id := s, pattern := .text s, isText := true, label := some ⟨s, false⟩ }

/-- A fixed text that is shown as a named part. -/
def textAs (s name : String) : Token := { text s with label := some ⟨name, true⟩ }

/-- A pattern that is shown under the name by which rules refer to it. -/
def named (id : String) (pattern : Pattern) : Token :=
  { id, pattern, label := some ⟨id, true⟩ }

/-- The order among tokens of one precedence and length: fixed texts win, and then those that admit
no blanks in front of them. -/
def rank (t : Token) : Nat := (if t.isText then 2 else 0) + (if t.immediate then 1 else 0)

end Token

/-- A token that the scanner of the language reads. -/
structure External where
  id : String
  label : Option Label := none
  /-- The scanner may also read a token that has a pattern. -/
  token : Option String := none

/-- The right-hand side of a rule. -/
inductive Body where
  | blank
  /-- A token or a rule. -/
  | sym (id : String)
  | seq (a b : Body)
  | choice (a b : Body)
  | repeat1 (a : Body)
  /-- Shown under another name. -/
  | renamed (label : Label) (a : Body)
  /-- A repetition, by its number. -/
  | repetition (n : Nat)
  deriving DecidableEq

namespace Body

/-- Parts one behind the other. -/
def all : List Body → Body
  | [] => blank
  | [a] => a
  | a :: rest => seq a (all rest)

/-- One of several parts. -/
def any : List Body → Body
  | [] => blank
  | [a] => a
  | a :: rest => choice a (any rest)

/-- A part that may be absent. -/
def opt (a : Body) : Body := choice a blank

/-- Any number of a part. -/
def many (a : Body) : Body := opt (repeat1 a)

/-- At least one part, with a separator between two of them. -/
def sepBy1 (separator a : Body) : Body := seq a (many (seq separator a))

/-- Any number of parts, with a separator between two of them. -/
def sepBy (separator a : Body) : Body := opt (sepBy1 separator a)

end Body

/-- A rule of a grammar. -/
structure Rule where
  id : String
  body : Body
  precedence : Option Int := none
  /-- Does it group to the left where both groupings are possible? -/
  leftAssociative : Bool := false
  /-- The name under which it is shown, if it is. -/
  label : Option Label := none

namespace Rule

/-- A rule that is shown under its own name. -/
def shown (id : String) (body : Body) : Rule := { id, body, label := some ⟨id, true⟩ }

/-- A rule that is not shown; its parts take its place. -/
def hidden (id : String) (body : Body) : Rule := { id, body }

/-- The rule with a precedence. -/
def withPrecedence (r : Rule) (n : Int) : Rule := { r with precedence := some n }

/-- The rule with the grouping of an operator that binds to the left. -/
def groupingLeft (r : Rule) : Rule := { r with precedence := some 0, leftAssociative := true }

/-- The rule shown under another name. -/
def shownAs (r : Rule) (name : String) : Rule := { r with label := some ⟨name, true⟩ }

end Rule

/-- A grammar. -/
structure Grammar where
  /-- The characters that separate tokens and belong to none. -/
  blanks : CharSet
  /-- Of tokens that are equal in all other respects the earlier one wins. -/
  tokens : List Token
  externals : List External
  /-- The rules; the first one describes whole texts. -/
  rules : List Rule
  /-- Tokens that may stand between any others. -/
  extras : List String

/-- A symbol of a production, by its number, and the name under which it is shown there. -/
structure Step where
  symbol : Nat
  shownAs : Option Label
  deriving DecidableEq, Inhabited

/-- Adds the items of a list that are not in it yet. -/
def distinct {α : Type} [BEq α] (items : List α) : List α :=
  (items.foldl (fun seen a => if seen.contains a then seen else a :: seen) []).reverse

namespace Body

/-- Replaces each repetition by its number in the list of what is repeated, which grows. -/
def numberRepetitions : Body → List Body → Body × List Body
  | seq a b, known =>
    let (a, known) := numberRepetitions a known
    let (b, known) := numberRepetitions b known
    (seq a b, known)
  | choice a b, known =>
    let (a, known) := numberRepetitions a known
    let (b, known) := numberRepetitions b known
    (choice a b, known)
  | renamed label a, known =>
    let (a, known) := numberRepetitions a known
    (renamed label a, known)
  | repeat1 a, known =>
    let (a, known) := numberRepetitions a known
    match known.findIdx? (· == a) with
    | some n => (repetition n, known)
    | none => (repetition known.length, known ++ [a])
  | a, known => (a, known)

/-- The alternatives of a right-hand side without repetitions, each as a list of steps. -/
def alternatives (symbolOf : String → Nat) (repetitionOf : Nat → Nat) : Body → List (List Step)
  | blank => [[]]
  | sym id => [[⟨symbolOf id, none⟩]]
  | seq a b =>
    (alternatives symbolOf repetitionOf a).flatMap fun front =>
      (alternatives symbolOf repetitionOf b).map (front ++ ·)
  | choice a b => alternatives symbolOf repetitionOf a ++ alternatives symbolOf repetitionOf b
  | renamed label a =>
    (alternatives symbolOf repetitionOf a).map fun steps =>
      steps.map fun s => { s with shownAs := s.shownAs.or (some label) }
  | repetition n => [[⟨repetitionOf n, none⟩]]
  | repeat1 a => alternatives symbolOf repetitionOf a

end Body

/-- A rule with its alternatives. -/
structure Family where
  alternatives : List (List Step)
  precedence : Option Int := none
  leftAssociative : Bool := false
  /-- Is it a repetition? -/
  isRepetition : Bool := false
  deriving Inhabited

/-- A grammar with numbered symbols. -/
structure Productions where
  blanks : CharSet
  tokens : Array Token
  externalCount : Nat
  /-- The symbol that each external token stands for. -/
  externalSymbols : Array Nat
  families : Array Family
  /-- The name under which each symbol is shown, if it is. -/
  labels : Array (Option Label)
  extras : List Nat

namespace Productions

/-- The end of the text. -/
def endSymbol (p : Productions) : Nat := p.externalCount

/-- The symbol of a token. -/
def tokenSymbol (p : Productions) (i : Nat) : Nat := p.externalCount + 1 + i

/-- The number of symbols that are no rules. -/
def terminalCount (p : Productions) : Nat := p.externalCount + 1 + p.tokens.size

/-- The symbol of a rule. -/
def ruleSymbol (p : Productions) (i : Nat) : Nat := p.terminalCount + i

/-- The number of symbols. -/
def symbolCount (p : Productions) : Nat := p.terminalCount + p.families.size

/-- The rule of a symbol. -/
def rule? (p : Productions) (symbol : Nat) : Option Nat :=
  if p.terminalCount ≤ symbol then some (symbol - p.terminalCount) else none

/-- The token of a symbol. -/
def token? (p : Productions) (symbol : Nat) : Option Nat :=
  if p.externalCount < symbol ∧ symbol < p.terminalCount then some (symbol - p.externalCount - 1)
  else none

end Productions

namespace Grammar

/-- Gives each repetition a number. -/
def numbered (g : Grammar) : List Body × List Body :=
  g.rules.foldl
    (fun (bodies, known) r =>
      let (body, known) := r.body.numberRepetitions known
      (bodies ++ [body], known))
    ([], [])

/-- The productions of a grammar. -/
def productions (g : Grammar) : Productions :=
  let names := g.externals.map (·.id) ++ [""] ++ g.tokens.map (·.id) ++ g.rules.map (·.id)
  let symbolOf := fun id => names.idxOf id
  let repetitionOf := fun n => names.length + n
  let (bodies, repeated) := g.numbered
  let families := (g.rules.zip bodies).map fun (r, body) =>
    { alternatives := distinct (body.alternatives symbolOf repetitionOf)
      precedence := r.precedence
      leftAssociative := r.leftAssociative : Family }
  let repetitions := repeated.mapIdx fun n body =>
    let self : Step := ⟨repetitionOf n, none⟩
    { alternatives := distinct ([self, self] :: body.alternatives symbolOf repetitionOf)
      isRepetition := true : Family }
  { blanks := g.blanks
    tokens := g.tokens.toArray
    externalCount := g.externals.length
    externalSymbols :=
      (g.externals.mapIdx fun i e => (e.token.map symbolOf).getD i).toArray
    families := (families ++ repetitions).toArray
    labels :=
      (g.externals.map External.label ++ [none] ++ g.tokens.map Token.label ++
        g.rules.map Rule.label ++ repeated.map fun _ => none).toArray
    extras := g.extras.map symbolOf }

end Grammar

end BaselineAudit.Parsing
