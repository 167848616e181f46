import BaselineAudit.Parsing.Automaton

/-!
# Parsing tables

The table of a grammar is its canonical automaton, made smaller and completed:

* state 0 says which tokens are read after an error;
* states of one core are merged where that confuses no tokens (`Merging`);
* states that only complete a hidden rule of one part are skipped (`Bypass`);
* each state knows which tokens to look for.
-/

namespace BaselineAudit.Parsing

/-- Which tokens of a grammar can be mistaken for which, as a set for each of them. -/
structure Confusion where
  /-- The tokens in whose place this one can be read. -/
  conflicts : Array NatSet
  /-- The tokens that this one can be a first part of. -/
  prefixes : Array NatSet
  /-- The tokens that this one overlaps with. -/
  overlaps : Array NatSet
  /-- The tokens that overlap with this one. -/
  overlappedBy : Array NatSet
  /-- The tokens that are read instead of this one where one is longer and the other is not. -/
  swallows : Array NatSet

namespace Items

/-- The tokens that can follow each token. -/
def followers (t : Items) : Array NatSet :=
  let p := t.grammar
  let tokensIn := fun (terminals : NatSet) =>
    (terminals >>> (p.externalCount + 1)) &&& ((1 <<< p.tokens.size) - 1)
  let pairs := fun (steps : List Step) => steps.zip steps.tail
  let direct := (List.range p.families.size).foldl
    (fun follow r =>
      (p.alternativesOf r).foldl
        (fun follow steps =>
          (pairs steps).foldl
            (fun follow (a, b) =>
              let next := tokensIn (t.first.getD b.symbol 0)
              (NatSet.below p.tokens.size (tokensIn (t.last.getD a.symbol 0))).foldl
                (fun follow i => follow.modify i (· ||| next)) follow)
            follow)
        follow)
    (Array.replicate p.tokens.size 0)
  p.extras.foldl
    (fun follow symbol =>
      match p.token? symbol with
      | none => follow
      | some i => (follow.map (· ||| NatSet.single i)).setIfInBounds i ((1 <<< p.tokens.size) - 1))
    direct

/-- Which tokens of a grammar can be mistaken for which. -/
def confusion (t : Items) : Confusion :=
  let p := t.grammar
  let l : Lexicon := ⟨p.blanks, p.tokens⟩
  let n := p.tokens.size
  let reps := l.representatives
  let starting := ((List.range n).map (l.startsWith reps)).toArray
  let followChars := t.followers.map fun set =>
    let starts := (NatSet.below n set).map (starting.getD · [])
    reps.filter fun c => starts.any (·.contains c)
  let pairs := (List.range n).flatMap fun i => (List.range i).map fun j =>
    let o := l.overlap reps i j (followChars.getD i []) (followChars.getD j [])
    (i, j, o.1, o.2)
  let collect := fun (test : Overlap → Overlap → Bool) =>
    pairs.foldl
      (fun (sets : Array NatSet) (i, j, a, b) =>
        let sets := if test a b then sets.modify i (· ||| NatSet.single j) else sets
        if test b a then sets.modify j (· ||| NatSet.single i) else sets)
      (Array.replicate n 0)
  { conflicts := collect fun a _ => a.conflicts
    prefixes := collect fun a _ => a.isPrefix
    overlaps := collect fun a _ => a.overlaps
    overlappedBy := collect fun _ b => b.overlaps
    swallows := collect fun a b => (a.continuesValidly || a.takesBlanks) && !b.takesBlanks }

end Items

/-- The tokens among the terminals of a state. -/
def Productions.tokensOf (p : Productions) (terminals : NatSet) : NatSet :=
  (terminals >>> (p.externalCount + 1)) &&& ((1 <<< p.tokens.size) - 1)

/-- The tokens that some state looks for together with each token. -/
def coincident (p : Productions) (states : Array State) : Array NatSet :=
  states.foldl
    (fun sets s =>
      let tokens := p.tokensOf s.terminals
      (NatSet.below p.tokens.size tokens).foldl (fun sets i => sets.modify i (· ||| tokens)) sets)
    (Array.replicate p.tokens.size 0)

/-- The state for texts that do not parse. It looks for all tokens that cannot be mistaken for others,
those that no such token is mistaken for, the external tokens and the end of the text. -/
def errorState (p : Productions) (confusion : Confusion) (together : Array NatSet) (blank : State) :
    State :=
  let n := p.tokens.size
  let apart := fun i => ((1 <<< n) - 1) ^^^ (together.getD i 0 &&& ((1 <<< n) - 1))
  let clear := NatSet.ofList ((List.range n).filter fun i =>
    !(NatSet.meets (confusion.swallows.getD i 0) (apart i &&& (((1 <<< n) - 1) ^^^ NatSet.single i))))
  let looked := (List.range n).filter fun i =>
    NatSet.mem i clear || !NatSet.meets (confusion.conflicts.getD i 0) (apart i &&& clear)
  let symbols := looked.map p.tokenSymbol ++ [p.endSymbol] ++
    (List.range p.externalCount).filter fun i => p.externalSymbols.getD i 0 == i
  { blank with
    actions := symbols.foldl (fun a s => a.setIfInBounds s (some .recover)) blank.actions }

/-! ## Merging states -/

/-- States in groups that are going to be merged. -/
structure Merging where
  /-- The group of each state. -/
  groupOf : Array Nat
  /-- The states of each group. -/
  members : Array (List Nat)

namespace Merging

/-- Two actions do the same once the groups are merged. -/
def sameAction (m : Merging) : Action → Action → Bool
  | .shift a, .shift b => m.groupOf.getD a 0 == m.groupOf.getD b 0
  | .reduce r n l none, .reduce r' n' l' none => r == r' && n == n' && l == l'
  | .reduce r n l (some a), .reduce r' n' l' (some b) =>
    r == r' && n == n' && l == l' && m.groupOf.getD a 0 == m.groupOf.getD b 0
  | .extra, .extra => true
  | .accept, .accept => true
  | .recover, .recover => true
  | _, _ => false

/-- The state that an action leads to. -/
def target? : Action → Option Nat
  | .shift s => some s
  | .reduce _ _ _ again => again
  | _ => none

/-- Two states cannot be merged: they do different things with a terminal, or one of them would come
to look for a token that can be mistaken for one of its own. -/
def differ (p : Productions) (confusion : Confusion) (both : NatSet) (states : Array State)
    (m : Merging) (a b : Nat) : Bool :=
  let sa := states.getD a default
  let sb := states.getD b default
  let disturbs := fun (terminals : NatSet) (symbol : Nat) =>
    symbol < p.externalCount || NatSet.mem symbol both ||
      match p.token? symbol with
      | some i => NatSet.meets (confusion.conflicts.getD i 0) (p.tokensOf terminals)
      | none => false
  let ta := sa.terminals
  let tb := sb.terminals
  (List.range p.terminalCount).any fun symbol =>
    match sa.action? symbol, sb.action? symbol with
    | some x, some y => !m.sameAction x y
    | some _, none => disturbs tb symbol
    | none, some _ => disturbs ta symbol
    | none, none => false

/-- Two states of one group lead to different groups. -/
def partWays (p : Productions) (states : Array State) (m : Merging) (a b : Nat) : Bool :=
  let sa := states.getD a default
  let sb := states.getD b default
  ((List.range p.terminalCount).any fun symbol =>
    match (sa.action? symbol).bind target?, (sb.action? symbol).bind target? with
    | some x, some y => m.groupOf.getD x 0 != m.groupOf.getD y 0
    | _, _ => false) ||
  (List.range p.families.size).any fun r =>
    let x := sa.gotos.getD r 0
    let y := sb.gotos.getD r 0
    x != 0 && y != 0 && m.groupOf.getD x 0 != m.groupOf.getD y 0

/-- The members of a group that cannot stay with one in front of them. -/
def outsiders (apart : Nat → Nat → Bool) : (fuel : Nat) → List Nat → List Nat → List Nat
  | 0, _, out => out
  | _ + 1, [], out => out
  | fuel + 1, a :: rest, out =>
    if out.contains a then outsiders apart fuel rest out
    else
      outsiders apart fuel rest
        (rest.foldl (fun out b => if !out.contains b && apart a b then out ++ [b] else out) out)

/-- Splits the groups from `g` on, new ones included. -/
def splitFrom (apart : Merging → Nat → Nat → Bool) : (fuel g : Nat) → Merging → Merging × Bool
  | 0, _, m => (m, false)
  | fuel + 1, g, m =>
    if g < m.members.size then
      let members := m.members.getD g []
      match outsiders (apart m) members.length members [] with
      | [] => splitFrom apart fuel (g + 1) m
      | out =>
        let n := m.members.size
        let m : Merging :=
          { groupOf := out.foldl (fun gs s => gs.setIfInBounds s n) m.groupOf
            members :=
              (m.members.setIfInBounds g (members.filter fun s => !out.contains s)).push out }
        ((splitFrom apart fuel (g + 1) m).1, true)
    else (m, false)

/-- Splits groups until the states of each one lead to the same groups. -/
def settleFrom (p : Productions) (states : Array State) : (fuel : Nat) → Merging → Merging
  | 0, m => m
  | fuel + 1, m =>
    let (m, changed) := splitFrom (partWays p states) 100000 0 m
    if changed then settleFrom p states fuel m else m

/-- The groups of a list of states: those of one core that can be merged. -/
def ofStates (p : Productions) (confusion : Confusion) (states : Array State) : Merging :=
  let count := states.foldl (fun n s => max n (s.core + 1)) 0
  let m : Merging :=
    { groupOf := states.map (·.core)
      members := (states.foldl
        (fun (groups, i) s => (groups.modify s.core (i :: ·), i + 1))
        ((Array.replicate count []), 0)).1.map List.reverse }
  let both := NatSet.ofList (p.externalSymbols.toList.filter (p.externalCount < ·))
  let m := (splitFrom (differ p confusion both states) 100000 0 m).1
  settleFrom p states 100000 m

/-- Puts other states in the place of those that an action leads to. -/
def redirect (f : Nat → Nat) : Action → Action
  | .shift s => .shift (f s)
  | .reduce r n l again => .reduce r n l (again.map f)
  | a => a

/-- Puts other states in the place of those that a state leads to. -/
def redirectState (f : Nat → Nat) (s : State) : State :=
  { s with
    actions := s.actions.map (·.map (redirect f))
    gotos := s.gotos.map fun n => if n = 0 then 0 else f n }

/-- One state that does what either of two does. -/
def union (a b : State) : State :=
  { a with
    actions := a.actions.zipWith (fun x y => y.or x) b.actions
    gotos := a.gotos.zipWith (fun x y => if y = 0 then x else y) b.gotos }

/-- The merged states. -/
def merged (m : Merging) (states : Array State) (blank : State) : Array State :=
  m.members.map fun members =>
    let all := members.map (states.getD · blank)
    redirectState (m.groupOf.getD · 0)
      (match all with
        | [] => blank
        | first :: rest => rest.foldl union first)

end Merging

/-! ## Skipping states -/

namespace Bypass

/-- The hidden rule of one part that is all a state completes, whatever comes next. -/
def onlyRule? (p : Productions) (s : State) : Option Nat :=
  let rules := s.actions.toList.filterMap fun
    | none | some .extra => none
    | some (.reduce rule 1 [] none) => some (some rule)
    | some _ => some none
  match rules with
  | some rule :: rest =>
    let symbol := p.ruleSymbol rule
    if rest.all (· == some rule) && (p.labels.getD symbol none).isNone &&
        !p.extras.contains symbol
    then some rule else none
  | _ => none

/-- The state to go to instead of `n`, from a state with these `gotos`. -/
def resolve (only : Array (Option Nat)) (gotos : Array Nat) : (fuel : Nat) → Nat → Nat
  | 0, n => n
  | fuel + 1, n =>
    match only.getD n none with
    | none => n
    | some rule =>
      match gotos.getD rule 0 with
      | 0 => n
      | next => resolve only gotos fuel next

/-- The states, each of which skips those that only complete a hidden rule of one part. -/
def apply (p : Productions) (states : Array State) : Array State :=
  let only := states.map (onlyRule? p)
  states.map fun s => Merging.redirectState (resolve only s.gotos states.size) s

/-- The states without those that no other one leads to. The larger ones come first, behind those for
errors and for the start. -/
def compacted (states : Array State) (blank : State) : Array State :=
  let used := states.foldl
    (fun used s =>
      let used := s.gotos.foldl (fun used n => used.setIfInBounds n true) used
      s.actions.foldl
        (fun used a =>
          match a.bind Merging.target? with
          | some n => used.setIfInBounds n true
          | none => used)
        used)
    ((Array.replicate states.size false).setIfInBounds 0 true |>.setIfInBounds 1 true)
  let weight := fun n =>
    let s := states.getD n blank
    s.actions.foldl (fun k a => if a.isSome then k + 1 else k) 0 +
      s.gotos.foldl (fun k g => if g != 0 then k + 1 else k) 0
  let rest := (List.range states.size).filter fun n => 2 ≤ n && used.getD n false
  let weighed := rest.map fun n => (n, weight n)
  let order := 0 :: 1 :: (weighed.mergeSort fun a b => b.2 ≤ a.2).map (·.1)
  let place := (order.zipIdx).foldl
    (fun (a : Array Nat) (n, i) => a.setIfInBounds n i) (Array.replicate states.size 0)
  (order.map fun n => Merging.redirectState (place.getD · 0) (states.getD n blank)).toArray

end Bypass

/-! ## Tables -/

/-- Tokens that are looked for together. -/
structure LexMode where
  tokens : NatSet
  /-- Is the end of the text looked for too? -/
  atEnd : Bool
  deriving DecidableEq, Inhabited

/-- What a parser does in a state. -/
structure TableState where
  actions : Array (Option Action)
  gotos : Array Nat
  /-- The number of the tokens it looks for. -/
  mode : Nat
  /-- The external tokens that it looks for. -/
  externals : NatSet
  /-- The terminals that are also read in this state if they were read in another one. -/
  reusable : NatSet
  deriving Inhabited

/-- A parsing table. -/
structure Table where
  grammar : Productions
  states : Array TableState
  modes : Array LexMode

namespace Table

/-- Two sets of tokens can be looked for together: no token of only one of them can be mistaken for
one of the other. -/
def compatible (confusion : Confusion) (together : Array NatSet) (n : Nat) (a b : NatSet) : Bool :=
  let clean := fun (own other : NatSet) =>
    (NatSet.below n own).all fun i =>
      NatSet.mem i other ||
        !(NatSet.meets (confusion.conflicts.getD i 0 ||| confusion.prefixes.getD i 0) other ||
          NatSet.meets
            ((confusion.overlaps.getD i 0 ||| confusion.overlappedBy.getD i 0) &&&
              (((1 <<< n) - 1) ^^^ together.getD i 0))
            other)
  clean a b && clean b a

/-- Adds a set of tokens to the first mode that takes it. -/
def addMode (fits : NatSet → NatSet → Bool) (tokens : NatSet) (atEnd : Bool) :
    (n : Nat) → List LexMode → List LexMode × Nat
  | n, [] => ([⟨tokens, atEnd⟩], n)
  | n, m :: rest =>
    if fits m.tokens tokens then (⟨m.tokens ||| tokens, m.atEnd || atEnd⟩ :: rest, n)
    else
      let (rest, i) := addMode fits tokens atEnd (n + 1) rest
      (m :: rest, i)

/-- The table of a grammar. -/
def ofGrammar (g : Grammar) : Table :=
  let p := g.productions
  let items := p.toItems
  let confusion := items.confusion
  let blank : State :=
    { actions := Array.replicate p.terminalCount none
      gotos := Array.replicate p.families.size 0 }
  let states := items.canonical
  let together := coincident p states
  let states := states.setIfInBounds 0 (errorState p confusion together (states.getD 0 blank))
  let states := (Merging.ofStates p confusion states).merged states blank
  let states := Bypass.compacted (Bypass.apply p states) blank
  let n := p.tokens.size
  let (modes, modeOf) := states.foldl
    (fun (modes, modeOf) s =>
      let (modes, i) := addMode (compatible confusion together n) (p.tokensOf s.terminals)
        (s.action? p.endSymbol).isSome 0 modes
      (modes, modeOf ++ [i]))
    ([], [])
  let tableStates := (states.toList.zip modeOf).map fun (s, mode) =>
    let terminals := s.terminals
    let tokens := p.tokensOf terminals
    { actions := s.actions
      gotos := s.gotos
      mode
      externals := NatSet.ofList ((List.range p.externalCount).filter fun i =>
        NatSet.mem (p.externalSymbols.getD i 0) terminals)
      reusable := NatSet.ofList ((List.range p.terminalCount).filter fun symbol =>
        NatSet.mem symbol terminals &&
          match p.token? symbol with
          | some i => !NatSet.meets (confusion.overlappedBy.getD i 0) tokens
          | none => true) : TableState }
  ⟨p, tableStates.toArray, modes.toArray⟩

/-- A state by its number. -/
def state (t : Table) (n : Nat) : TableState := t.states.getD n default

/-- What to do with a terminal in a state. -/
def action? (t : Table) (state symbol : Nat) : Option Action :=
  (t.state state).actions.getD symbol none

/-- The state after a symbol; 0 if there is none. -/
def next (t : Table) (state symbol : Nat) : Nat :=
  match t.grammar.rule? symbol with
  | some r => (t.state state).gotos.getD r 0
  | none =>
    match t.action? state symbol with
    | some (.shift s) => s
    | some (.reduce _ _ _ (some s)) => s
    | some .extra => state
    | _ => 0

/-- The order of symbols: the end of the text, tokens, external tokens, rules. -/
def rank (t : Table) (symbol : Nat) : Nat :=
  if symbol < t.grammar.externalCount then 1 + t.grammar.tokens.size + symbol
  else if symbol < t.grammar.terminalCount then symbol - t.grammar.externalCount
  else symbol

/-- The terminals in their order, without the end of the text. -/
def terminals (t : Table) : List Nat :=
  (List.range t.grammar.tokens.size).map t.grammar.tokenSymbol ++ List.range t.grammar.externalCount

end Table

end BaselineAudit.Parsing
