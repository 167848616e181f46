import BaselineAudit.Parsing.Stack

/-!
# Parsing with recovery from errors

A text always has a tree. Where the text does not parse, the parser tries several ways to go on: to
put in a missing token, to go back to a state in which the next token has a place, or to skip the
token. All of them are followed at once, those that cost too much more than others are given up, and
the cheapest tree counts.

`Language.parse` is the parser of a language.
-/

namespace BaselineAudit.Parsing

/-- A token that a scanner found, and what the scanner remembers after it. -/
structure Scanned (σ : Type) where
  external : Nat
  start : Place
  stop : Place
  memory : σ

/-- A language: the table of its grammar, and its scanner. The scanner is told what it remembers, which
external tokens are looked for, and where. -/
structure Language (σ : Type) where
  table : Table
  initial : σ
  scan : σ → NatSet → Place → Option (Scanned σ)

/-- How many ways of parsing are followed. -/
def maxHeads : Nat := 6

/-- How many more there may be while a rule is completed. -/
def maxOverflow : Nat := 4

/-- How much more than another a way of parsing may cost. -/
def maxCostDifference : Nat := 1800

/-- How deep a stack is searched for a place to go on. -/
def maxLandmarkDepth : Nat := 16

/-- A token with the place and the memory at which it was read. -/
structure LastToken (σ : Type) where
  bytes : Nat
  memory : σ
  tree : Tree σ

/-- The state of a parser. -/
structure Run (σ : Type) where
  stack : Stack σ
  /-- The cheapest tree so far of the whole text. -/
  finished : Option (Tree σ) := none
  /-- How many trees of the whole text were found. -/
  accepted : Nat := 0
  lastToken : Option (LastToken σ) := none

namespace Language

variable {σ : Type}

/-! ## Reading tokens -/

/-- The result of looking for a token. -/
structure Lexed where
  /-- The symbol that was found, and where it ends. -/
  found : Option (Nat × Place)
  /-- Where the text of the token starts. -/
  start : Place
  /-- Where the search stopped. -/
  stop : Place

/-- Follows tokens through a text. -/
def follow (l : Lexicon) (g : Productions) (threads : List Thread) (atEnd : Bool) (start : Place)
    (best : Option (Nat × Place)) (passed : Extent) : List Char → Lexed
  | [] =>
    let here : Place := ⟨passed, []⟩
    let best := match l.winner (l.completions threads) with
      | some d => some (g.tokenSymbol d.1, here)
      | none => best
    ⟨if atEnd then some (g.endSymbol, here) else best, start, here⟩
  | c :: cs =>
    let here : Place := ⟨passed, c :: cs⟩
    let done := l.winner (l.completions threads)
    let best := match done with
      | some d => some (g.tokenSymbol d.1, here)
      | none => best
    match l.step c threads with
    | none => ⟨best, start, here⟩
    | some t =>
      let goes := match done with
        | some d => Lexicon.goesOn t d (Lexicon.skipping threads)
        | none => true
      if goes then
        let passed := passed + .ofChar c
        follow l g t.threads (atEnd && t.isBlank) (if t.isBlank then ⟨passed, cs⟩ else start) best
          passed cs
      else ⟨best, start, here⟩

/-- The start of a text without its byte order mark. -/
def skipMark (p : Place) : Place :=
  if p.bytes = 0 ∧ p.head? = some '\ufeff' then p.next else p

/-- Looks for one of the tokens of a mode. -/
def lexToken (lang : Language σ) (mode : LexMode) (p : Place) : Lexed :=
  let g := lang.table.grammar
  let l : Lexicon := ⟨g.blanks, g.tokens⟩
  let p := skipMark p
  follow l g ((NatSet.below g.tokens.size mode.tokens).map l.start) mode.atEnd p none p.passed p.rest

/-- A token between two places, behind the blanks that start at `origin`. -/
def leafBetween (lang : Language σ) (kind : Kind) (origin start stop : Place) (state : Nat) :
    Tree σ :=
  let start := if stop.bytes < start.bytes then stop else start
  Tree.leaf lang.table.grammar kind (start.passed - origin.passed) (stop.passed - start.passed) state

/-- Asks the scanner for a token. A token without text counts only if the scanner remembers something
else after it, or if it has a place here. -/
def lexExternal (lang : Language σ) [DecidableEq σ] (advanced errorMode : Bool) (memory : σ)
    (origin p : Place) (state mode : Nat) : Option (Tree σ) :=
  let externals := (lang.table.state mode).externals
  if externals = 0 then none
  else
    match lang.scan memory externals p with
    | none => none
    | some r =>
      let symbol := lang.table.grammar.externalSymbols.getD r.external 0
      let changed := r.memory != memory
      let refused := r.stop.bytes ≤ p.bytes && !changed &&
        (errorMode || !advanced || lang.table.next state symbol == state)
      if refused then none
      else
        some
          { leafBetween lang (.symbol symbol) origin r.start r.stop state with
            memory := some r.memory
            lastMemory := some r.memory
            changesMemory := changed }

/-- Looks for a token from `p` on. If there is none in the mode of the state, all tokens are looked for;
if there is none of them either, text is skipped up to the next one. -/
def lexFrom (lang : Language σ) [DecidableEq σ] (advanced : Bool) (memory : σ) (origin : Place)
    (state : Nat) : (fuel : Nat) → (errorMode : Bool) → (skipped : Option (Place × Place)) →
      (p : Place) → Tree σ
  | 0, _, skipped, p =>
    let (start, stop) := skipped.getD (p, p)
    lang.leafBetween .error origin start stop state
  | fuel + 1, errorMode, skipped, p =>
    let mode := if errorMode then 0 else state
    let give := fun (t : Tree σ) =>
      match skipped with
      | none => t
      | some (start, stop) => lang.leafBetween .error origin start stop state
    match lang.lexExternal advanced errorMode memory origin p state mode with
    | some t => give t
    | none =>
      let r := lang.lexToken (lang.table.modes.getD (lang.table.state mode).mode default) p
      match r.found with
      | some (symbol, stop) => give (lang.leafBetween (.symbol symbol) origin r.start stop state)
      | none =>
        if !errorMode then lexFrom lang advanced memory origin state fuel true skipped origin
        else
          let (start, stop) := skipped.getD (r.start, r.start)
          if r.stop.bytes = stop.bytes then
            if r.stop.atEnd then lang.leafBetween .error origin start stop state
            else
              let p := r.stop.next
              lexFrom lang advanced memory origin state fuel true (some (start, p)) p
          else
            lexFrom lang advanced memory origin state fuel true (some (start, r.stop)) r.stop

/-- The next token of a way of parsing, in a state. -/
def lex (lang : Language σ) [DecidableEq σ] (s : Stack σ) (h : Head σ) (state : Nat) : Tree σ :=
  let p := (s.top h).place
  lang.lexFrom (s.advancedSinceError h) h.memory p state (2 * p.rest.length + 3) (state == 0) none p

/-- A token that was read in one state is also the next one in another. -/
def canReuse (lang : Language σ) (state : Nat) (t : Tree σ) : Bool :=
  match t.kind with
  | .symbol symbol =>
    let here := lang.table.state state
    let there := lang.table.state t.firstState
    let hasAction := (lang.table.action? state symbol).isSome
    if hasAction && here.mode == there.mode && here.externals == there.externals then true
    else if t.size.bytes = 0 && symbol != lang.table.grammar.endSymbol then false
    else here.externals == 0 && hasAction && here.reusable.mem symbol
  | _ => false

/-! ## Completing rules -/

/-- Takes the extras off the end of a list of trees. -/
def splitTrailing (trees : List (Tree σ)) : List (Tree σ) × List (Tree σ) :=
  let reversed := trees.reverse
  ((reversed.dropWhile (·.extra)).reverse, (reversed.takeWhile (·.extra)).reverse)

/-- Puts trees on top of a head, one after the other, all in one state. -/
def pushAll (s : Stack σ) (v : Nat) (trees : List (Tree σ)) (state : Nat) : Stack σ :=
  trees.foldl (fun s t => s.push v (some t) state) s

/-- The tree of a rule, and the extras behind it, from one of several lists of parts. -/
def bestParent (lang : Language σ) (rule : Nat) (aliases : List (Option Label)) :
    List (List (Tree σ)) → Option (Tree σ × List (Tree σ))
  | [] => none
  | first :: others =>
    let kind := Kind.symbol (lang.table.grammar.ruleSymbol rule)
    let build := fun (trees : List (Tree σ)) =>
      let (own, trailing) := splitTrailing trees
      (Tree.node lang.table.grammar kind own aliases, trailing)
    some (others.foldl
      (fun best trees =>
        let new := build trees
        if Tree.isBetter lang.table best.1 new.1 then new else best)
      (build first))

/-- Completes a rule on top of a head. There is a new head for each node at which the rule can start,
unless it is like one that exists. Says where the new heads start, if there are any. -/
def reduce (lang : Language σ) [DecidableEq σ] (s : Stack σ) (v rule count : Nat)
    (aliases : List (Option Label)) : Stack σ × Option Nat :=
  match s.heads[v]? with
  | none => (s, none)
  | some h =>
    let before := s.heads.size
    let halted := s.heads.foldl (fun n h => if h.status.isHalted then n + 1 else n) 0
    let s := (Stack.grouped (s.popCount h count)).foldl
      (fun s (node, ways) =>
        let new := s.heads.size
        if maxHeads + maxOverflow + halted < new then s
        else
          match lang.bestParent rule aliases ways with
          | none => s
          | some (parent, trailing) =>
            let s := { s with heads := s.heads.push { h with node, status := .active, landmarks := none } }
            let next := lang.table.next (s.node node).state (lang.table.grammar.ruleSymbol rule)
            let s := s.push new (some parent) next
            let s := pushAll s new trailing next
            ((s.mergeInto? lang.initial new ((List.range new).filter (· != v))).getD s))
      s
    (s, if before < s.heads.size then some before else none)

/-- A whole text was read: its tree is compared with the one that was found before. -/
def accept (lang : Language σ) (r : Run σ) (v : Nat) (lookahead : Tree σ) : Run σ :=
  let s := r.stack.push v (some lookahead) 1
  match s.heads[v]? with
  | none => r
  | some h =>
    let root := fun (trees : List (Tree σ)) =>
      -- the parts of the last tree that is no extra take its place
      let reversed := trees.reverse
      let after := (reversed.takeWhile (·.extra)).reverse
      match reversed.dropWhile (·.extra) with
      | [] => none
      | t :: before =>
        some (Tree.node lang.table.grammar t.kind (before.reverse ++ t.children ++ after) t.aliases)
    let r := (s.popAll h).foldl
      (fun (r : Run σ) w =>
        match root w.trees with
        | none => { r with accepted := r.accepted + 1 }
        | some t =>
          let finished := match r.finished with
            | some old => if Tree.isBetter lang.table old t then t else old
            | none => t
          { r with finished := some finished, accepted := r.accepted + 1 })
      { r with stack := s }
    { r with stack := r.stack.halt v }

/-- Remembers what the scanner remembers after a tree. -/
def remember (s : Stack σ) (v : Nat) (t : Tree σ) : Stack σ :=
  match t.lastMemory with
  | some m => s.modifyHead v fun h => { h with memory := m }
  | none => s

/-! ## Comparing ways of parsing -/

/-- What ways of parsing are compared by. -/
structure Standing where
  cost : Nat
  weight : Nat
  inError : Bool

/-- Which of two ways of parsing is better, and whether the other one should be given up. -/
inductive Verdict where
  | takeLeft
  | preferLeft
  | none
  | preferRight
  | takeRight
  deriving DecidableEq

/-- Compares two ways of parsing. -/
def compare (a b : Standing) : Verdict :=
  if !a.inError && b.inError then
    if a.cost < b.cost then .takeLeft else .preferLeft
  else if a.inError && !b.inError then
    if b.cost < a.cost then .takeRight else .preferRight
  else if a.cost < b.cost then
    if maxCostDifference < (b.cost - a.cost) * (1 + a.weight) then .takeLeft else .preferLeft
  else if b.cost < a.cost then
    if maxCostDifference < (a.cost - b.cost) * (1 + b.weight) then .takeRight else .preferRight
  else .none

/-- How a way of parsing stands. -/
def standing (s : Stack σ) (h : Head σ) : Standing :=
  let paused := h.status.isPaused
  { cost := s.costOf h + (if paused then costs.skippedTree else 0)
    weight := s.weightSinceError h
    inError := paused || (s.top h).state == 0 }

/-- Another way of parsing, or a finished tree, is better than what would come of this one at a
cost. -/
def betterExists (r : Run σ) [DecidableEq σ] (v : Nat) (cost : Nat) : Bool :=
  match r.stack.heads[v]? with
  | none => false
  | some h =>
    (r.finished.any fun t => t.cost ≤ cost) ||
      let s := r.stack
      let bytes := (s.top h).place.bytes
      let own : Standing := ⟨cost, s.weightSinceError h, false⟩
      (List.range s.heads.size).any fun i =>
        match s.heads[i]? with
        | none => false
        | some other =>
          i != v && other.status.isActive && bytes ≤ (s.top other).place.bytes &&
            match compare own (standing s other) with
            | .takeRight => true
            | .preferRight => s.canMerge i v
            | _ => false

/-! ## Errors -/

/-- The rules that could be completed in a state if the right token followed, and whether there is a
token that can be taken. With `terminal` only this token is considered. -/
def possible (lang : Language σ) (state : Nat) (terminal : Option Nat) :
    Bool × List (Nat × Nat × List (Option Label)) :=
  let symbols := match terminal with
    | some t => [t]
    | none => lang.table.terminals
  symbols.foldl
    (fun (canShift, rules) symbol =>
      match lang.table.action? state symbol with
      | some (.shift _) | some .recover => (true, rules)
      | some (.reduce rule count aliases _) =>
        if 0 < count && !(rules.any fun (r, n, _) => r == rule && n == count) then
          (canShift, rules ++ [(rule, count, aliases)])
        else (canShift, rules)
      | _ => (canShift, rules))
    (false, [])

/-- Completes all rules that could be completed, from head `first` on. Heads in which `terminal` can
neither be taken nor lead to a completed rule are dropped. -/
def completeFrom (lang : Language σ) [DecidableEq σ] (terminal : Option Nat) (first base : Nat) :
    (fuel round v : Nat) → (canShift : Bool) → Stack σ → Stack σ × Bool
  | 0, _, _, canShift, s => (s, canShift)
  | fuel + 1, round, v, canShift, s =>
    match s.heads[v]? with
    | none => (s, canShift)
    | some h =>
      match s.mergeInto? lang.initial v ((List.range v).filter (base ≤ ·)) with
      | some s => completeFrom lang terminal first base fuel (round + 1) v canShift s
      | none =>
        let count := s.heads.size
        let (shifts, rules) := lang.possible (s.top h).state terminal
        let (s, last) := rules.foldl
          (fun (s, _) (rule, n, aliases) => lang.reduce s v rule n aliases) (s, none)
        let next := if v = first then count else v + 1
        if shifts then completeFrom lang terminal first base fuel (round + 1) next true s
        else
          match last with
          | some new =>
            if round < maxHeads then
              completeFrom lang terminal first base fuel (round + 1) v canShift (s.renumber new v)
            else
              let s := if terminal.isSome then s.removeHead v else s
              completeFrom lang terminal first base fuel (round + 1) next canShift s
          | none =>
            let s := if terminal.isSome then s.removeHead v else s
            completeFrom lang terminal first base fuel (round + 1) next canShift s

/-- Completes all rules that could be completed on top of a head. With `terminal`, says whether it can
be taken then. -/
def completeAll (lang : Language σ) [DecidableEq σ] (s : Stack σ) (v : Nat)
    (terminal : Option Nat) : Stack σ × Bool :=
  lang.completeFrom terminal v s.heads.size 10000 0 v false s

/-- The token by which possible actions are narrowed down. The end of the text narrows down nothing. -/
def narrowing (lang : Language σ) (t : Tree σ) : Option Nat :=
  match t.kind with
  | .symbol n => if n = lang.table.grammar.endSymbol then none else some n
  | _ => some lang.table.grammar.symbolCount

/-- Puts in a missing token on top of a head, if the next token has a place behind it. -/
def insertMissing (lang : Language σ) [DecidableEq σ] (s : Stack σ) (v : Nat) (lookahead : Tree σ) :
    List Nat → Option (Stack σ)
  | [] => none
  | symbol :: symbols =>
    match s.heads[v]? with
    | none => none
    | some h =>
      let state := (s.top h).state
      let next := lang.table.next state symbol
      let completes := match lookahead.kind with
        | .symbol n =>
          match lang.table.action? next n with
          | some (.reduce ..) => true
          | _ => false
        | _ => false
      if next = 0 || next == state || !completes then
        insertMissing lang s v lookahead symbols
      else
        let new := s.heads.size
        let s' := { s with heads := s.heads.push { h with landmarks := none } }
        let t : Tree σ :=
          { Tree.leaf lang.table.grammar (.symbol symbol) {} {} state with missing := true }
        let s' := s'.push new (some t) next
        let (s', ok) := lang.completeAll s' new (lang.narrowing lookahead)
        if ok then some s' else insertMissing lang s' v lookahead symbols

/-- Looks down a stack for the states in which the parser could go on. -/
def landmarks (s : Stack σ) (h : Head σ) : List Landmark :=
  let rec go : (fuel : Nat) → List (Walker σ) → List Landmark → List Landmark
    | 0, _, known => known
    | _ + 1, [], known => known
    | fuel + 1, walkers, known =>
      let known := walkers.foldl
        (fun known w =>
          let node := s.node w.node
          if maxLandmarkDepth < w.depth ||
              (known.takeWhile (w.depth ≤ ·.depth)).any
                (fun l => l.depth == w.depth && l.state == node.state) then known
          else ⟨node.place.passed, w.depth, node.state⟩ :: known)
        known
      let (walkers, _) :=
        s.stepWalkers (fun w => (false, decide (maxLandmarkDepth < w.depth))) walkers [] [] []
      go fuel walkers known
  (go (s.nodes.size + 1) [⟨h.node, [], 0⟩] []).reverse

/-- Takes an error off the top of a head, if there is one, and gives the parts of it. -/
def popError (s : Stack σ) (v : Nat) : Stack σ × List (Tree σ) :=
  match s.heads[v]? with
  | none => (s, [])
  | some h =>
    let found := (s.top h).links.findSome? fun l =>
      match l.tree with
      | some t => if t.kind = .error then some (l.below, t) else none
      | none => none
    match found with
    | some (below, t) =>
      (s.modifyHead v fun h => { h with node := below, status := .active }, t.children)
    | none => (s, [])

/-- Goes back to a state further down, and wraps what is above it into an error. -/
def goBack (lang : Language σ) (s : Stack σ) (v depth goal : Nat) : Stack σ × Bool :=
  match s.heads[v]? with
  | none => (s, false)
  | some h =>
    (Stack.grouped (s.popCount h depth)).foldl
      (fun (s, did) (node, ways) =>
        let new := s.heads.size
        let s := { s with heads := s.heads.push { h with node, status := .active, landmarks := none } }
        if (s.node node).state ≠ goal then (s.halt new, did)
        else
          let (s, front) := popError s new
          let (own, trailing) := splitTrailing (front ++ ways.headD [])
          let s :=
            if own.isEmpty then s
            else
              s.push new
                (some { Tree.node lang.table.grammar .error own [] with extra := true }) goal
          (pushAll s new trailing goal, true))
      (s, false)

/-- Tries to go back to one of the states further down in which the next token has a place. -/
def tryLandmarks (lang : Language σ) [DecidableEq σ] (r : Run σ) (v before : Nat)
    (lookahead : Tree σ) (cost weight : Nat) : List Landmark → Run σ × Bool
  | [] => (r, false)
  | l :: rest =>
    match r.stack.heads[v]? with
    | none => (r, false)
    | some h =>
      let here := (r.stack.top h).place.passed
      let taken := (r.stack.heads.extract 0 before).any fun o =>
        (r.stack.top o).state == l.state && (r.stack.top o).place.bytes == here.bytes
      if l.state = 0 || l.place.bytes == here.bytes || taken then
        tryLandmarks lang r v before lookahead cost weight rest
      else
        let newCost := cost + (here.bytes - l.place.bytes) * costs.skippedByte +
          (here.rows - l.place.rows) * costs.skippedLine
        if betterExists r v newCost then (r, false)
        else
          let hasAction := match lookahead.kind with
            | .symbol n => (lang.table.action? l.state n).isSome
            | _ => false
          if hasAction then
            let (s, did) := lang.goBack r.stack v (if 0 < weight then l.depth + 1 else l.depth) l.state
            let r := { r with stack := s }
            if did then (r, true) else tryLandmarks lang r v before lookahead cost weight rest
          else tryLandmarks lang r v before lookahead cost weight rest

/-- Drops the heads from `n` on that are not active. -/
def dropInactive (s : Stack σ) (n : Nat) : Stack σ :=
  { s with heads := s.heads.extract 0 n ++ (s.heads.extract n s.heads.size).filter (·.status.isActive) }

/-- Skips a token. -/
def skipToken (lang : Language σ) (s : Stack σ) (v : Nat) (lookahead : Tree σ) (weight : Nat) :
    Stack σ :=
  let isExtra : Bool := match lookahead.kind with
    | .symbol n => lang.table.action? 1 n == some .extra
    | _ => false
  let lookahead := if isExtra then { lookahead with extra := true } else lookahead
  let g := lang.table.grammar
  let skipped := Tree.node g .skipped [lookahead] []
  match s.heads[v]? with
  | none => s
  | some h =>
    let (s, skipped) :=
      if 0 < weight then
        match Stack.grouped (s.popCount h 1) with
        | (node, ways) :: _ =>
          (s.modifyHead v fun h => { h with node, status := .active },
            Tree.node g .skipped (ways.headD [] ++ [skipped]) [])
        | [] => (s, skipped)
      else (s, skipped)
    remember (s.push v (some skipped) 0) v lookahead

/-- Goes on after an error, with `lookahead` as the next token: from a state further down if there is
one, and also by skipping the token. -/
def recover (lang : Language σ) [DecidableEq σ] (r : Run σ) (v : Nat) (lookahead : Tree σ) : Run σ :=
  let r := { r with stack := r.stack.lowered }
  match r.stack.heads[v]? with
  | none => r
  | some h =>
    let before := r.stack.heads.size
    let weight := r.stack.weightSinceError h
    let cost := r.stack.costOf h
    let (r, went) :=
      if lookahead.kind = .error then (r, false)
      else lang.tryLandmarks r v before lookahead cost weight (h.landmarks.getD [])
    let r := { r with stack := dropInactive r.stack before }
    if lookahead.kind = .symbol lang.table.grammar.endSymbol then
      let s := r.stack.push v (some (Tree.node lang.table.grammar .error [] [])) 1
      lang.accept { r with stack := s } v lookahead
    else if went && (maxHeads < r.stack.heads.size || lookahead.changesMemory) then
      { r with stack := r.stack.halt v }
    else
      let newCost := cost + costs.skippedTree + lookahead.total.bytes * costs.skippedByte +
        lookahead.total.rows * costs.skippedLine
      if betterExists r v newCost then { r with stack := r.stack.halt v }
      else { r with stack := lang.skipToken r.stack v lookahead weight }

/-- Marks an error on top of each head from `w` on, and puts in a missing token on the first of them
that allows it. -/
def markErrors (lang : Language σ) [DecidableEq σ] (v before count : Nat) (lookahead : Tree σ) :
    (fuel w : Nat) → (inserted : Bool) → Stack σ → Stack σ
  | 0, _, _, s => s
  | fuel + 1, w, inserted, s =>
    if count ≤ w then s
    else
      let (s, inserted) :=
        if inserted then (s, true)
        else
          match lang.insertMissing s w lookahead lang.table.terminals with
          | some s => (s, true)
          | none => (s, false)
      markErrors lang v before count lookahead fuel (if w = v then before else w + 1) inserted
        (s.push w none 0)

/-- Starts to recover from an error on top of a head. -/
def handleError (lang : Language σ) [DecidableEq σ] (r : Run σ) (v : Nat) (lookahead : Tree σ) :
    Run σ :=
  let before := r.stack.heads.size
  let (s, _) := lang.completeAll r.stack v none
  let count := s.heads.size
  let s := lang.markErrors v before count lookahead (count + 2) v false s
  let s := (List.range (count - before)).foldl
    (fun s _ => (s.merge? lang.initial v before).getD s) s
  match s.heads[v]? with
  | none => { r with stack := s }
  | some h =>
    let s := s.modifyHead v fun h' => { h' with landmarks := some (landmarks s h) }
    lang.recover { r with stack := s } v lookahead

/-! ## The parser -/

/-- Does what the table says for the next token, until it is taken. -/
def actFrom (lang : Language σ) [DecidableEq σ] (v : Nat) (lookahead : Tree σ) :
    (fuel : Nat) → Run σ → Run σ
  | 0, r => { r with stack := r.stack.halt v }
  | fuel + 1, r =>
    match r.stack.heads[v]? with
    | none => r
    | some h =>
      let state := (r.stack.top h).state
      let action := match lookahead.kind with
        | .symbol n => lang.table.action? state n
        | _ => none
      match action with
      | some (.shift next) =>
        let t := { lookahead with extra := false }
        { r with stack := remember (r.stack.push v (some t) next) v t }
      | some .extra =>
        let t := { lookahead with extra := true }
        { r with stack := remember (r.stack.push v (some t) state) v t }
      | some (.reduce rule count aliases _) =>
        match lang.reduce r.stack v rule count aliases with
        | (s, some new) => actFrom lang v lookahead fuel { r with stack := s.renumber new v }
        | (s, none) => { r with stack := s.halt v }
      | some .accept => lang.accept r v lookahead
      | some .recover => lang.recover r v lookahead
      | none =>
        { r with
          stack := r.stack.modifyHead v fun h =>
            { h with status := .paused lookahead, weightAtError := (r.stack.top h).weight } }

/-- Reads the next token on a head and does what the table says for it. -/
def advance (lang : Language σ) [DecidableEq σ] (r : Run σ) (v : Nat) : Run σ :=
  match r.stack.heads[v]? with
  | none => r
  | some h =>
    let top := r.stack.top h
    let known := r.lastToken.filter fun t =>
      t.bytes == top.place.bytes && t.memory == h.memory && lang.canReuse top.state t.tree
    let (r, t) := match known with
      | some t => (r, t.tree)
      | none =>
        let t := lang.lex r.stack h top.state
        ({ r with lastToken := some ⟨top.place.bytes, h.memory, t⟩ }, t)
    lang.actFrom v t (4 * r.stack.nodes.size + 1000) r

/-- Compares head `i` with those in front of it, from `j` on. Gives the place of the head behind
it. -/
def compareFrom [DecidableEq σ] (initial : σ) (own : Standing) :
    (fuel i j : Nat) → Stack σ → Stack σ × Nat
  | 0, i, _, s => (s, i)
  | fuel + 1, i, j, s =>
    if i ≤ j then (s, i)
    else
      match s.heads[j]? with
      | none => (s, i)
      | some h =>
        match compare (standing s h) own with
        | .takeLeft => (s.removeHead i, i - 1)
        | .preferLeft | .none =>
          match s.merge? initial j i with
          | some s => (s, i - 1)
          | none => compareFrom initial own fuel i (j + 1) s
        | .preferRight =>
          match s.merge? initial j i with
          | some s => (s, i - 1)
          | none =>
            match s.heads[i]? with
            | none => (s, i)
            | some hi =>
              let heads := (s.heads.setIfInBounds i h).setIfInBounds j hi
              compareFrom initial own fuel i (j + 1) { s with heads }
        | .takeRight => compareFrom initial own fuel (i - 1) j (s.removeHead j)

/-- Gives up ways of parsing that are worse than others, and merges those that are alike. The result
also has the least cost of a way that is in no error. -/
def weedFrom [DecidableEq σ] (initial : σ) :
    (fuel i : Nat) → (least : Option Nat) → Stack σ → Stack σ × Option Nat
  | 0, _, least, s => (s, least)
  | fuel + 1, i, least, s =>
    match s.heads[i]? with
    | none => (s, least)
    | some h =>
      if h.status.isHalted then weedFrom initial fuel i least (s.removeHead i)
      else
        let own := standing s h
        let least :=
          if own.inError then least
          else
            match least with
            | some c => some (min c own.cost)
            | none => some own.cost
        -- a head that was removed leaves its number to the next one
        let (s, last) := compareFrom initial own (2 * s.heads.size + 2) i 0 s
        weedFrom initial fuel (last + 1) least s

/-- Takes up the first way of parsing that stopped at an error, if no other one is active in front of
it, and drops the others that stopped. -/
def resumeFrom (lang : Language σ) [DecidableEq σ] :
    (fuel i count : Nat) → (going : Bool) → (least : Option Nat) → Run σ → Run σ × Option Nat
  | 0, _, _, _, least, r => (r, least)
  | fuel + 1, i, count, going, least, r =>
    if count ≤ i then (r, least)
    else
      match r.stack.heads[i]? with
      | none => (r, least)
      | some h =>
        match h.status with
        | .paused lookahead =>
          if !going && r.accepted < maxHeads then
            let least := some (r.stack.costOf h)
            let s := r.stack.modifyHead i fun h => { h with status := .active }
            let r := lang.handleError { r with stack := s } i lookahead
            resumeFrom lang fuel (i + 1) count true least r
          else resumeFrom lang fuel i (count - 1) going least { r with stack := r.stack.removeHead i }
        | _ => resumeFrom lang fuel (i + 1) count true least r

/-- Thins out the ways of parsing. -/
def condense (lang : Language σ) [DecidableEq σ] (r : Run σ) : Run σ × Option Nat :=
  let s := r.stack.lowered
  let (s, least) := weedFrom lang.initial (4 * s.heads.size + 4) 0 none s
  let s := { s with heads := s.heads.extract 0 maxHeads }
  lang.resumeFrom (2 * s.heads.size + 2) 0 s.heads.size false least { r with stack := s }

/-- Reads tokens on one head until it gets past the place that others have reached. -/
def runHead (lang : Language σ) [DecidableEq σ] (v : Nat) :
    (fuel : Nat) → (reached : Nat) → Run σ → Run σ × Nat
  | 0, reached, r => (r, reached)
  | fuel + 1, reached, r =>
    match r.stack.heads[v]? with
    | none => (r, reached)
    | some h =>
      if h.status.isActive then
        let r := lang.advance r v
        match r.stack.heads[v]? with
        | none => (r, reached)
        | some h =>
          let bytes := (r.stack.top h).place.bytes
          if reached < bytes || (0 < v && bytes == reached) then (r, bytes)
          else runHead lang v fuel reached r
      else (r, reached)

/-- One round: all heads, those that come up in the round included. -/
def runHeads (lang : Language σ) [DecidableEq σ] :
    (fuel v reached : Nat) → Run σ → Run σ × Nat
  | 0, _, reached, r => (r, reached)
  | fuel + 1, v, reached, r =>
    if v < r.stack.heads.size then
      let (r, reached) := lang.runHead v 10000 reached r
      runHeads lang fuel (v + 1) reached r
    else (r, reached)

/-- Rounds until the finished tree is the cheapest, or no way of parsing is left. -/
def runFrom (lang : Language σ) [DecidableEq σ] : (fuel reached : Nat) → Run σ → Option (Tree σ)
  | 0, _, r => r.finished
  | fuel + 1, reached, r =>
    let (r, reached) := lang.runHeads 1000 0 reached r
    let count := r.stack.heads.size
    let (r, least) := lang.condense r
    let done := r.finished.any fun t => least.all (t.cost < ·)
    if done || count = 0 then r.finished else runFrom lang fuel reached r

/-- The tree of a text. -/
def parse (lang : Language σ) [DecidableEq σ] (cs : List Char) : Option (Tree σ) :=
  lang.runFrom (100 * cs.length + 10000) 0 { stack := .start (.start cs) lang.initial }

end Language

end BaselineAudit.Parsing
