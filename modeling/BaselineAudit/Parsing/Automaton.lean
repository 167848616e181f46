import BaselineAudit.Parsing.Lexicon

/-!
# Parsing automata

The canonical automaton of a grammar: a state is a set of items, which are alternatives of rules with
a place in them and the symbols that may follow. `Construction.run` finds all states and what each of
them does with the next symbol. State 0 is kept for texts that do not parse, and state 1 is the
start.
-/

namespace BaselineAudit.Parsing

/-- What to do with the next token. -/
inductive Action where
  /-- Take it and go to a state. -/
  | shift (state : Nat)
  /-- Take it and stay. -/
  | extra
  /-- Put the last `count` parts together. If the part is an element of a repetition, another one
  could also be taken first, which leads to the state `again`. -/
  | reduce (rule count : Nat) (aliases : List (Option Label)) (again : Option Nat)
  /-- The text is complete. -/
  | accept
  /-- Find out how to go on after an error. -/
  | recover
  deriving DecidableEq

/-- An alternative of a rule, read up to a place. Alternatives are not told apart by what was read,
but by the names under which it is shown. -/
structure Item where
  rule : Nat
  done : Nat
  total : Nat
  passed : List (Option Label)
  rest : List Step
  deriving DecidableEq, Inhabited

/-- A list without the absent names at its end. -/
def trimAliases (aliases : List (Option Label)) : List (Option Label) :=
  (aliases.reverse.dropWhile (·.isNone)).reverse

namespace Item

/-- An alternative read up to its `n`-th step. -/
def ofSteps (rule : Nat) (steps : List Step) (n : Nat) : Item :=
  ⟨rule, n, steps.length, (steps.take n).map (·.shownAs), steps.drop n⟩

/-- The item with one more step read. -/
def advance (i : Item) : Item :=
  match i.rest with
  | [] => i
  | s :: rest => { i with done := i.done + 1, passed := i.passed ++ [s.shownAs], rest }

end Item

/-- The items of a state that it was made for, by number, each with the symbols that may follow. -/
abbrev Kernel := List (Nat × NatSet)

/-- Adds an item to a kernel, which is sorted by item. -/
def Kernel.add (item : Nat) (follow : NatSet) : Kernel → Kernel
  | [] => [(item, follow)]
  | (i, f) :: rest =>
    if item < i then (item, follow) :: (i, f) :: rest
    else if item = i then (i, f ||| follow) :: rest
    else (i, f) :: Kernel.add item follow rest

/-- What is known about a grammar before its states are found. -/
structure Items where
  grammar : Productions
  items : Array Item
  /-- The number of each item with one more step read. -/
  next : Array Nat
  /-- The unread alternatives of each rule. -/
  starts : Array (List Nat)
  /-- The terminals with which each symbol can start. -/
  first : Array NatSet
  /-- The terminals with which each symbol can end. -/
  last : Array NatSet
  /-- The rules with which a rule can start, what may follow them, and whether what may follow the
  rule may follow them too. -/
  openings : Array (List (Nat × NatSet × Bool))

namespace Productions

/-- The rule of whole texts, which no other rule uses: the first rule and the end of the text. -/
def wholeText (p : Productions) : Nat := p.families.size

/-- The alternatives of a rule. -/
def alternativesOf (p : Productions) (rule : Nat) : List (List Step) :=
  if rule = p.wholeText then [[⟨p.ruleSymbol 0, none⟩]]
  else (p.families.getD rule default).alternatives

/-- All rules, that of whole texts included. -/
def allRules (p : Productions) : List Nat := List.range (p.families.size + 1)

/-- The terminals that a symbol can have at one of its ends, as far as they are known for rules. -/
def endsOf (p : Productions) (known : Array NatSet) (symbol : Nat) : NatSet :=
  match p.rule? symbol with
  | some r => known.getD r 0
  | none => .single symbol

/-- One more round of finding the terminals at one end of each rule. -/
def endsRound (p : Productions) (pick : List Step → Option Step) (known : Array NatSet) :
    Array NatSet :=
  (List.range p.families.size).foldl
    (fun known r =>
      let found := (p.alternativesOf r).foldl
        (fun s steps =>
          match pick steps with
          | some step => s ||| p.endsOf known step.symbol
          | none => s)
        (known.getD r 0)
      known.setIfInBounds r found)
    known

/-- Repeats rounds until nothing changes. -/
def endsFrom (p : Productions) (pick : List Step → Option Step) :
    (fuel : Nat) → Array NatSet → Array NatSet
  | 0, known => known
  | fuel + 1, known =>
    let next := p.endsRound pick known
    if next = known then known else endsFrom p pick fuel next

/-- The terminals that each symbol can have at one of its ends. -/
def ends (p : Productions) (pick : List Step → Option Step) : Array NatSet :=
  let rules := p.endsFrom pick (p.families.size + 1) (Array.replicate p.families.size 0)
  ((List.range p.symbolCount).map (p.endsOf rules)).toArray

/-- Adds a rule to the openings of another, and says whether that changed anything. -/
def addOpening (rule : Nat) (follow : NatSet) (inherits : Bool) :
    List (Nat × NatSet × Bool) → List (Nat × NatSet × Bool) × Bool
  | [] => ([(rule, follow, inherits)], true)
  | (r, f, i) :: rest =>
    if r = rule then
      let f' := f ||| follow
      let i' := i || inherits
      ((r, f', i') :: rest, f' != f || i' != i)
    else
      let (rest, changed) := addOpening rule follow inherits rest
      ((r, f, i) :: rest, changed)

/-- Follows the rules with which a rule can start. -/
def openingsFrom (p : Productions) (first : Array NatSet) :
    (fuel : Nat) → (pending : List Nat) → List (Nat × NatSet × Bool) →
      List (Nat × NatSet × Bool)
  | 0, _, known => known
  | _ + 1, [], known => known
  | fuel + 1, rule :: pending, known =>
    match known.find? (·.1 == rule) with
    | none => openingsFrom p first fuel pending known
    | some (_, follow, inherits) =>
      let (known, pending) := (p.alternativesOf rule).foldl
        (fun (known, pending) steps =>
          match steps with
          | [] => (known, pending)
          | s :: rest =>
            match p.rule? s.symbol with
            | none => (known, pending)
            | some r =>
              let (known, changed) :=
                match rest with
                | [] => addOpening r follow inherits known
                | t :: _ => addOpening r (first.getD t.symbol 0) false known
              (known, if changed then pending ++ [r] else pending))
        (known, pending)
      openingsFrom p first fuel pending known

/-- The rules with which a rule can start, itself included. -/
def openings (p : Productions) (first : Array NatSet) (rule : Nat) :
    List (Nat × NatSet × Bool) :=
  p.openingsFrom first 100000 [rule] [(rule, 0, true)]

/-- What is known about a grammar before its states are found. -/
def toItems (p : Productions) : Items :=
  let perRule := p.allRules.map fun r =>
    distinct ((p.alternativesOf r).flatMap fun steps =>
      (List.range (steps.length + 1)).map (Item.ofSteps r steps))
  let offsets := perRule.foldl (fun (offs, n) items => (offs ++ [n], n + items.length)) ([], 0) |>.1
  let next := (perRule.zip offsets).flatMap fun (items, offset) =>
    items.map fun i => offset + items.idxOf i.advance
  let starts := (perRule.zip offsets).map fun (items, offset) =>
    (items.zipIdx.filter (·.1.done == 0)).map fun e => offset + e.2
  let first := p.ends List.head?
  { grammar := p
    items := perRule.flatten.toArray
    next := next.toArray
    starts := starts.toArray
    first
    last := p.ends List.getLast?
    openings := ((List.range p.families.size).map (p.openings first)).toArray }

end Productions

/-- A state: what to do with each terminal, and where to go after each rule. -/
structure State where
  /-- States with the same items, whatever may follow them, have the same core. -/
  core : Nat := 0
  actions : Array (Option Action)
  /-- The next state after each rule; 0 if there is none. -/
  gotos : Array Nat
  deriving DecidableEq, Inhabited

namespace State

/-- The action for a terminal. -/
def action? (s : State) (symbol : Nat) : Option Action := s.actions.getD symbol none

/-- The terminals for which there is an action. -/
def terminals (s : State) : NatSet :=
  (s.actions.foldl (fun (set, i) a => (if a.isSome then set ||| NatSet.single i else set, i + 1))
    (0, 0)).1

end State

/-- The states that are known so far. -/
structure Construction where
  states : Array State
  kernels : Array Kernel
  /-- The states by the first item of their kernel. -/
  byFirst : Array (List Nat)
  /-- The cores by their first item. -/
  cores : Array (List (List Nat × Nat))
  coreCount : Nat

namespace Construction

/-- The state with a kernel, which is new if there is none yet. -/
def intern (c : Construction) (blank : State) (k : Kernel) : Nat × Construction :=
  let key := match k with
    | [] => 0
    | (i, _) :: _ => i
  match (c.byFirst.getD key []).find? (fun n => c.kernels.getD n [] == k) with
  | some n => (n, c)
  | none =>
    let n := c.states.size
    let core := k.map (·.1)
    let (coreId, c) :=
      match (c.cores.getD key []).find? (·.1 == core) with
      | some (_, id) => (id, c)
      | none =>
        (c.coreCount,
          { c with
            cores := c.cores.modify key ((core, c.coreCount) :: ·)
            coreCount := c.coreCount + 1 })
    (n,
      { c with
        states := c.states.push { blank with core := coreId }
        kernels := c.kernels.push k
        byFirst := c.byFirst.modify key (n :: ·) })

end Construction

namespace Items

/-- An item by its number. -/
def item (t : Items) (i : Nat) : Item := t.items.getD i default

/-- The precedence of an item: that of its rule, once a step of it was read. -/
def precedence (t : Items) (i : Nat) : Int :=
  let item := t.item i
  if item.done = 0 then 0 else ((t.grammar.families.getD item.rule default).precedence).getD 0

/-- The item is of a rule that groups to the left. -/
def groupsLeft (t : Items) (i : Nat) : Bool :=
  let item := t.item i
  item.done != 0 && (t.grammar.families.getD item.rule default).leftAssociative

/-- All items of a state: those of its kernel, and the unread alternatives of each rule that can
come next. -/
def closure (t : Items) (k : Kernel) : List (Nat × NatSet) :=
  let follows := k.foldl
    (fun follows (i, follow) =>
      match (t.item i).rest with
      | [] => follows
      | s :: rest =>
        match t.grammar.rule? s.symbol with
        | none => follows
        | some r =>
          let follow := match rest with
            | [] => follow
            | u :: _ => t.first.getD u.symbol 0
          (t.openings.getD r []).foldl
            (fun follows (r', own, inherits) =>
              follows.modify r' fun f => f ||| own ||| (if inherits then follow else 0))
            follows)
    (Array.replicate t.grammar.families.size 0)
  k ++ (List.range t.grammar.families.size).flatMap fun r =>
    let follow := follows.getD r 0
    if follow = 0 then [] else (t.starts.getD r []).map (·, follow)

/-- The kernels of the states that a state leads to, by symbol. -/
def successors (t : Items) (closure : List (Nat × NatSet)) : Array Kernel :=
  closure.foldl
    (fun succ (i, follow) =>
      match (t.item i).rest with
      | [] => succ
      | s :: _ => succ.modify s.symbol (Kernel.add (t.next.getD i 0) follow))
    (Array.replicate t.grammar.symbolCount [])

/-- The action of a completed item. -/
def completion (t : Items) (i : Nat) : Action :=
  let item := t.item i
  if item.rule = t.grammar.wholeText then .accept
  else .reduce item.rule item.total (trimAliases item.passed) none

/-- Decides between taking a terminal and completing an item. The higher precedence wins; between
equals, a rule that groups to the left is completed. An element of a repetition is completed, and the
state that would take another one is kept with it. -/
def settle (t : Items) (k : Kernel) (terminal : Nat) (item next : Nat) : Action :=
  let taking := k.filter fun (i, _) =>
    (t.item i).done != 0 &&
      match (t.item i).rest with
      | [] => false
      | s :: _ => (t.first.getD s.symbol 0).mem terminal
  let rule := (t.item item).rule
  let completing := k.filter fun (i, follow) => (t.item i).rest.isEmpty && NatSet.mem terminal follow
  let own := t.precedence item
  let isRepetition := (t.grammar.families.getD rule default).isRepetition
  if isRepetition && (taking ++ completing).all (fun (i, _) => (t.item i).rule == rule) then
    match t.completion item with
    | .reduce rule count aliases _ => .reduce rule count aliases (some next)
    | action => action
  else
    let higher := taking.any fun (i, _) => own < t.precedence i
    let lower := taking.any fun (i, _) => t.precedence i < own
    if higher && !lower then .shift next
    else if lower && !higher then t.completion item
    else if t.groupsLeft item then t.completion item
    else .shift next

/-- The completed item that wins for a terminal. -/
def completed? (t : Items) (closure : List (Nat × NatSet)) (terminal : Nat) : Option Nat :=
  closure.foldl
    (fun best (i, follow) =>
      if (t.item i).rest.isEmpty && NatSet.mem terminal follow then
        match best with
        | some b => if t.precedence b < t.precedence i then some i else best
        | none => some i
      else best)
    none

/-- Finds what a state does, and the states it leads to. -/
def expand (t : Items) (blank : State) (c : Construction) (n : Nat) : Construction :=
  let k := c.kernels.getD n []
  let closure := t.closure k
  let complete := closure.filter fun (i, _) => (t.item i).rest.isEmpty
  let succ := t.successors closure
  let state := c.states.getD n blank
  let (c, state) := (List.range t.grammar.symbolCount).foldl
    (fun (c, state) symbol =>
      let (next, c) :=
        match succ.getD symbol [] with
        | [] => (0, c)
        | k' => Construction.intern c blank k'
      match t.grammar.rule? symbol with
      | some r => (c, if next = 0 then state else { state with gotos := state.gotos.setIfInBounds r next })
      | none =>
        let action :=
          match t.completed? complete symbol with
          | some i => some (if next = 0 then t.completion i else t.settle k symbol i next)
          | none =>
            if next ≠ 0 then some (.shift next)
            else if t.grammar.extras.contains symbol then some .extra
            else none
        (c, { state with actions := state.actions.setIfInBounds symbol action }))
    (c, state)
  { c with states := c.states.setIfInBounds n state }

/-- Works through the states in the order in which they are found. -/
def expandFrom (t : Items) (blank : State) : (fuel : Nat) → (n : Nat) → Construction → Construction
  | 0, _, c => c
  | fuel + 1, n, c =>
    if n < c.states.size then expandFrom t blank fuel (n + 1) (t.expand blank c n) else c

/-- The canonical states of a grammar, with nothing in state 0 yet. -/
def canonical (t : Items) : Array State :=
  let blank : State :=
    { actions := Array.replicate t.grammar.terminalCount none
      gotos := Array.replicate t.grammar.families.size 0 }
  let c : Construction :=
    { states := #[], kernels := #[], byFirst := Array.replicate (t.items.size + 1) [],
      cores := Array.replicate (t.items.size + 1) [], coreCount := 0 }
  let (_, c) := c.intern blank []
  let start := (t.starts.getD t.grammar.wholeText []).map (·, NatSet.single t.grammar.endSymbol)
  let (_, c) := c.intern blank start
  (t.expandFrom blank 100000 1 c).states

end Items

end BaselineAudit.Parsing
