import BaselineAudit.Parsing.Tree

/-!
# Parse stacks

After an error several ways of parsing a text are followed at once. Their stacks share what they have
in common: the nodes of all stacks form a graph, in which a node can have several nodes below it. A
way of parsing is a `Head` of the graph.
-/

namespace BaselineAudit.Parsing

/-- The way from a node of the stack to one below it. There is no tree between a node and the mark of
an error on top of it. -/
structure Link (σ : Type) where
  below : Nat
  tree : Option (Tree σ)
  deriving Inhabited

/-- A node of the stack: a state of the parser at a place of the text. -/
structure StackNode (σ : Type) where
  state : Nat
  links : List (Link σ)
  place : Place
  /-- The cost of the trees below. -/
  cost : Nat
  /-- The number of shown parts below. -/
  weight : Nat
  deriving Inhabited

/-- Whether a way of parsing is followed. -/
inductive Status (σ : Type) where
  | active
  /-- It stopped at a token that has no place there. -/
  | paused (lookahead : Tree σ)
  | halted

/-- What was met on the way down a stack: a place, how deep it is, and the state there. -/
structure Landmark where
  place : Extent
  depth : Nat
  state : Nat

/-- A way of parsing the text. -/
structure Head (σ : Type) where
  node : Nat
  /-- The weight at the last error. -/
  weightAtError : Nat
  /-- What the scanner remembers. -/
  memory : σ
  status : Status σ
  /-- Where the way could go on after an error. -/
  landmarks : Option (List Landmark)

/-- The stacks of all ways of parsing. -/
structure Stack (σ : Type) where
  nodes : Array (StackNode σ)
  heads : Array (Head σ)

namespace Status

variable {σ : Type}

/-- The way is followed. -/
def isActive : Status σ → Bool
  | active => true
  | _ => false

/-- The way has stopped at a token. -/
def isPaused : Status σ → Bool
  | paused _ => true
  | _ => false

/-- The way is given up. -/
def isHalted : Status σ → Bool
  | halted => true
  | _ => false

end Status

/-- A way down a stack. -/
structure Walker (σ : Type) where
  node : Nat
  /-- The trees on the way, from the lowest one up. -/
  trees : List (Tree σ)
  /-- The number of trees on the way that are no extras. -/
  depth : Nat

namespace Stack

variable {σ : Type}

/-- The stack of a parser in state 1 at the start of a text. -/
def start (place : Place) (memory : σ) : Stack σ :=
  { nodes := #[⟨1, [], place, 0, 0⟩]
    heads := #[⟨0, 0, memory, .active, none⟩] }

/-- A node by its number. -/
def node (s : Stack σ) (n : Nat) : StackNode σ := s.nodes.getD n ⟨0, [], default, 0, 0⟩

/-- The node of a head. -/
def top (s : Stack σ) (h : Head σ) : StackNode σ := s.node h.node

/-- Changes a head. -/
def modifyHead (s : Stack σ) (v : Nat) (f : Head σ → Head σ) : Stack σ :=
  { s with heads := s.heads.modify v f }

/-- Drops a head. -/
def removeHead (s : Stack σ) (v : Nat) : Stack σ := { s with heads := s.heads.eraseIdxIfInBounds v }

/-- Gives up a head. -/
def halt (s : Stack σ) (v : Nat) : Stack σ := s.modifyHead v fun h => { h with status := .halted }

/-- Puts a tree on top of a head, or the mark of an error if there is no tree. -/
def push (s : Stack σ) (v : Nat) (tree : Option (Tree σ)) (state : Nat) : Stack σ :=
  match s.heads[v]? with
  | none => s
  | some h =>
    let below := s.top h
    let node : StackNode σ :=
      match tree with
      | some t =>
        { state
          links := [⟨h.node, some t⟩]
          place := ⟨below.place.passed + t.total, below.place.rest.drop t.total.chars⟩
          cost := below.cost + t.cost
          weight := below.weight + t.weight }
      | none => { below with state, links := [⟨h.node, none⟩] }
    { nodes := s.nodes.push node
      heads := s.heads.modify v fun h =>
        { h with
          node := s.nodes.size
          weightAtError := if tree.isNone then node.weight else h.weightAtError } }

/-- The cost of a way of parsing. One that stopped at an error has to recover from it. -/
def costOf (s : Stack σ) (h : Head σ) : Nat :=
  let n := s.top h
  let atError := n.state == 0 && (n.links.head?.all fun l => l.tree.isNone)
  n.cost + (if h.status.isPaused || atError then costs.recovery else 0)

/-- The number of shown parts since the last error. -/
def weightSinceError (s : Stack σ) (h : Head σ) : Nat := (s.top h).weight - h.weightAtError

/-- No weight at an error is greater than the weight now. -/
def lowered (s : Stack σ) : Stack σ :=
  { s with
    heads := s.heads.map fun h => { h with weightAtError := min h.weightAtError (s.top h).weight } }

/-- Takes walkers one step further down. There are never more than 64 of them. -/
def stepWalkers (s : Stack σ) (visit : Walker σ → Bool × Bool) :
    (pending : List (Walker σ)) → (kept added : List (Walker σ)) →
      (found : List (Walker σ)) → List (Walker σ) × List (Walker σ)
  | [], kept, added, found => (kept.reverse ++ added, found)
  | w :: pending, kept, added, found =>
    let node := s.node w.node
    let (take, stop) := visit w
    let found := if take then w :: found else found
    let move := fun (l : Link σ) =>
      { node := l.below
        trees := match l.tree with
          | some t => t :: w.trees
          | none => w.trees
        depth := match l.tree with
          | some t => if t.extra then w.depth else w.depth + 1
          | none => w.depth + 1 : Walker σ }
    match stop, node.links with
    | false, first :: others =>
      let room := 64 - (kept.length + 1 + pending.length + added.length)
      stepWalkers s visit pending (move first :: kept) (added ++ (others.take room).map move) found
    | _, _ => stepWalkers s visit pending kept added found

/-- Walks down from a head as far as `visit` allows. `visit` says whether a walker is one of those
that are looked for, and whether it stops. -/
def walk (s : Stack σ) (visit : Walker σ → Bool × Bool) :
    (fuel : Nat) → List (Walker σ) → (found : List (Walker σ)) → List (Walker σ)
  | 0, _, found => found.reverse
  | _ + 1, [], found => found.reverse
  | fuel + 1, walkers, found =>
    let (walkers, found) := s.stepWalkers visit walkers [] [] found
    walk s visit fuel walkers found

/-- The ways down from a head over `count` trees that are no extras. -/
def popCount (s : Stack σ) (h : Head σ) (count : Nat) : List (Walker σ) :=
  s.walk (fun w => (w.depth == count, w.depth == count)) (s.nodes.size + 1) [⟨h.node, [], 0⟩] []

/-- The ways down from a head to the bottom. -/
def popAll (s : Stack σ) (h : Head σ) : List (Walker σ) :=
  s.walk (fun w => ((s.node w.node).links.isEmpty, false)) (s.nodes.size + 1) [⟨h.node, [], 0⟩] []

/-- Puts together the ways that end at one node, in the order in which the nodes were reached. -/
def grouped (ways : List (Walker σ)) : List (Nat × List (List (Tree σ))) :=
  ways.foldl
    (fun groups w =>
      if groups.any (·.1 == w.node) then
        groups.map fun (n, trees) => if n = w.node then (n, trees ++ [w.trees]) else (n, trees)
      else groups ++ [(w.node, [w.trees])])
    []

/-- Two links have trees that count as the same. -/
def sameTree [DecidableEq σ] (initial : σ) : Option (Tree σ) → Option (Tree σ) → Bool
  | none, none => true
  | some a, some b =>
    a.kind == b.kind &&
      ((0 < a.cost && 0 < b.cost) ||
        (a.padding.bytes == b.padding.bytes && a.size.bytes == b.size.bytes &&
          a.children.length == b.children.length && a.extra == b.extra &&
          a.memory.getD initial == b.memory.getD initial))
  | _, _ => false

/-- Adds a way down to a node, unless it has it already. Nodes below that are alike are merged. -/
def addLink [DecidableEq σ] (initial : σ) : (fuel : Nat) → Stack σ → Nat → Link σ → Stack σ
  | 0, s, _, _ => s
  | fuel + 1, s, n, link =>
    if link.below = n then s
    else
      let node := s.node n
      let target := s.node link.below
      let alike := node.links.find? fun l =>
        sameTree initial l.tree link.tree &&
          (l.below == link.below ||
            (let other := s.node l.below
            other.state == target.state && other.place.bytes == target.place.bytes &&
              other.cost == target.cost))
      match alike with
      | some l =>
        if l.below = link.below then s
        else target.links.foldl (fun s l' => addLink initial fuel s l.below l') s
      | none =>
        if 8 ≤ node.links.length then s
        else
          let weight := target.weight + (link.tree.map Tree.weight).getD 0
          { s with
            nodes := s.nodes.setIfInBounds n
              { node with links := node.links ++ [link], weight := max node.weight weight } }

/-- Two ways of parsing stand at the same place in the same state, at the same cost. -/
def canMerge [DecidableEq σ] (s : Stack σ) (a b : Nat) : Bool :=
  match s.heads[a]?, s.heads[b]? with
  | some x, some y =>
    let nx := s.top x
    let ny := s.top y
    x.status.isActive && y.status.isActive && nx.state == ny.state &&
      nx.place.bytes == ny.place.bytes && nx.cost == ny.cost && x.memory == y.memory
  | _, _ => false

/-- Merges the second way of parsing into the first, if they are alike. -/
def merge? [DecidableEq σ] (initial : σ) (s : Stack σ) (a b : Nat) : Option (Stack σ) :=
  if s.canMerge a b then
    match s.heads[a]?, s.heads[b]? with
    | some x, some y =>
      let s := (s.top y).links.foldl (fun s l => addLink initial (s.nodes.size + 1) s x.node l) s
      let s := s.modifyHead a fun h =>
        if (s.node h.node).state = 0 then { h with weightAtError := (s.node h.node).weight } else h
      some (s.removeHead b)
    | _, _ => none
  else none

/-- Merges a way of parsing into the first one of `candidates` that it is like. -/
def mergeInto? [DecidableEq σ] (initial : σ) (s : Stack σ) (b : Nat) :
    (candidates : List Nat) → Option (Stack σ)
  | [] => none
  | a :: rest => (s.merge? initial a b).or (mergeInto? initial s b rest)

/-- Puts one head in the place of another. What is known about where to go on stays. -/
def renumber (s : Stack σ) (source target : Nat) : Stack σ :=
  if source = target then s
  else
    match s.heads[source]?, s.heads[target]? with
    | some h, some old =>
      let h := { h with landmarks := h.landmarks.or old.landmarks }
      { s with heads := (s.heads.setIfInBounds target h).eraseIdxIfInBounds source }
    | _, _ => s

/-- Some text was read since the last error. -/
def advancedFrom (s : Stack σ) (weightAtError : Nat) : (fuel : Nat) → Nat → Bool
  | 0, _ => false
  | fuel + 1, n =>
    let node := s.node n
    match node.links with
    | ⟨below, some t⟩ :: _ =>
      if 0 < t.total.bytes then true
      else if weightAtError < node.weight && t.cost == 0 then
        advancedFrom s weightAtError fuel below
      else false
    | _ => false

/-- Some text was read since the last error, or there was none. -/
def advancedSinceError (s : Stack σ) (h : Head σ) : Bool :=
  (s.top h).cost == 0 || s.advancedFrom h.weightAtError (s.nodes.size + 1) h.node

end Stack

end BaselineAudit.Parsing
