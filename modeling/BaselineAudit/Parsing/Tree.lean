import BaselineAudit.Parsing.Table

/-!
# Trees

A tree covers a piece of text: blanks in front of it, its `padding`, and the text itself. Both are
measured, not copied, so that the place of a part follows from what stands in front of it. Trees of
texts that do not parse have a cost; of several trees of one text the cheapest one counts.

`Tree.nodes` is the view of a tree that others use: the parts that are shown, with their places.
-/

namespace BaselineAudit.Parsing

/-- A measure of text. -/
structure Extent where
  chars : Nat := 0
  bytes : Nat := 0
  /-- The number of newlines. -/
  rows : Nat := 0
  deriving DecidableEq, Repr, Inhabited

namespace Extent

/-- A text behind another. -/
def add (a b : Extent) : Extent := ⟨a.chars + b.chars, a.bytes + b.bytes, a.rows + b.rows⟩

/-- What is left of `a` behind its first part `b`. -/
def sub (a b : Extent) : Extent := ⟨a.chars - b.chars, a.bytes - b.bytes, a.rows - b.rows⟩

instance : Add Extent := ⟨add⟩

instance : Sub Extent := ⟨sub⟩

/-- The measure of a character. -/
def ofChar (c : Char) : Extent := ⟨1, c.utf8Size, if c = '\n' then 1 else 0⟩

/-- The measure of a text. -/
def ofChars (cs : List Char) : Extent := cs.foldl (fun e c => e + ofChar c) {}

end Extent

/-- A place in a text: how much is in front of it, and what is behind it. -/
structure Place where
  passed : Extent
  rest : List Char
  deriving Inhabited

namespace Place

/-- The start of a text. -/
def start (cs : List Char) : Place := ⟨{}, cs⟩

/-- The place behind the next character. -/
def next (p : Place) : Place :=
  match p.rest with
  | [] => p
  | c :: cs => ⟨p.passed + .ofChar c, cs⟩

/-- The place behind the characters of a class. -/
def skipWhile (isSkipped : Char → Bool) (p : Place) : Place :=
  ⟨p.passed + .ofChars (p.rest.takeWhile isSkipped), p.rest.dropWhile isSkipped⟩

/-- The next character. -/
def head? (p : Place) : Option Char := p.rest.head?

/-- No character is left. -/
def atEnd (p : Place) : Bool := p.rest.isEmpty

/-- The number of bytes in front of a place. -/
def bytes (p : Place) : Nat := p.passed.bytes

end Place

/-- What a tree stands for. -/
inductive Kind where
  | symbol (n : Nat)
  /-- A piece of text that does not parse. -/
  | error
  /-- A token that was skipped while looking for a place to go on. -/
  | skipped
  deriving DecidableEq, Repr, Inhabited

/-- A tree over a piece of text. `σ` is what the scanner of the language remembers. -/
structure Tree (σ : Type) where
  kind : Kind
  /-- The name under which it is shown, if it is. -/
  label : Option Label
  padding : Extent
  size : Extent
  children : List (Tree σ)
  /-- The names under which the children are shown. -/
  aliases : List (Option Label)
  /-- It may stand between any others. -/
  extra : Bool
  /-- It was put in where the text lacks a token. -/
  missing : Bool
  /-- The cost of the errors in it. -/
  ownCost : Nat
  shownChildren : Nat
  shownDescendants : Nat
  /-- What the scanner remembers after it, if the scanner read it. -/
  memory : Option σ
  /-- What the scanner remembers after the last token in it that the scanner read. -/
  lastMemory : Option σ
  /-- It changed what the scanner remembers. -/
  changesMemory : Bool
  /-- The state in which its first token was read. -/
  firstState : Nat
  deriving Inhabited

/-- What errors cost. -/
structure Costs where
  missing : Nat := 110
  recovery : Nat := 500
  skippedTree : Nat := 100
  skippedByte : Nat := 1
  skippedLine : Nat := 30

/-- The costs that all parsers use. -/
def costs : Costs := {}

namespace Tree

variable {σ : Type}

/-- The cost of a tree. -/
def cost (t : Tree σ) : Nat := if t.missing then costs.missing + costs.recovery else t.ownCost

/-- The text of a tree and the blanks in front of it. -/
def total (t : Tree σ) : Extent := t.padding + t.size

/-- How many shown parts a tree has, itself included. A skipped token counts as one. -/
def weight (t : Tree σ) : Nat :=
  t.shownDescendants + (if t.label.isSome then 1 else 0) + (if t.kind = .skipped then 1 else 0)

/-- The name under which a kind is shown. -/
def labelOf (g : Productions) : Kind → Option Label
  | .symbol n => g.labels.getD n none
  | .error => some ⟨"ERROR", true⟩
  | .skipped => none

/-- A token. -/
def leaf (g : Productions) (kind : Kind) (padding size : Extent) (state : Nat) : Tree σ :=
  { kind
    label := labelOf g kind
    padding
    size
    children := []
    aliases := []
    extra := kind == .symbol g.endSymbol
    missing := false
    ownCost := 0
    shownChildren := 0
    shownDescendants := 0
    memory := none
    lastMemory := none
    changesMemory := false
    firstState := state }

/-- Text in which no token was found. -/
def isBareError (t : Tree σ) : Bool := t.kind == .error && t.children.isEmpty

/-- What a child adds to the measures of its parent, which has read `place` children that are no
extras. -/
def addChild (g : Productions) (inError : Bool) (t : Tree σ) (place : Nat) (c : Tree σ) : Tree σ :=
  let skippedCost :=
    if inError && !c.extra && !c.isBareError then
      if c.label.isSome then costs.skippedTree
      else if c.children.isEmpty then 0
      else costs.skippedTree * c.shownChildren
    else 0
  let aliased := !c.extra && c.kind != .symbol g.endSymbol && ((t.aliases[place]?).join).isSome
  let shown :=
    if aliased || c.label.isSome then 1
    else if c.children.isEmpty then 0
    else c.shownChildren
  { t with
    ownCost := t.ownCost + (if c.kind = .skipped then 0 else c.cost) + skippedCost
    shownChildren := t.shownChildren + shown
    shownDescendants :=
      t.shownDescendants + c.shownDescendants + (if aliased || c.label.isSome then 1 else 0)
    lastMemory := c.lastMemory.or t.lastMemory
    changesMemory := t.changesMemory || c.changesMemory }

/-- `addChild` for all children in order. -/
def addChildren (g : Productions) (inError : Bool) : Tree σ → Nat → List (Tree σ) → Tree σ
  | t, _, [] => t
  | t, place, c :: rest =>
    addChildren g inError (t.addChild g inError place c) (if c.extra then place else place + 1) rest

/-- The text of several trees one behind the other, without the blanks in front of the first. -/
def sizeOf : List (Tree σ) → Extent
  | [] => {}
  | c :: rest => rest.foldl (fun e c => e + c.total) c.size

/-- A tree with children. -/
def node (g : Productions) (kind : Kind) (children : List (Tree σ))
    (aliases : List (Option Label)) : Tree σ :=
  let inError := kind == .error || kind == .skipped
  let size := sizeOf children
  let t : Tree σ :=
    { kind
      label := labelOf g kind
      padding := (children.head?.map (·.padding)).getD {}
      size
      children
      aliases
      extra := false
      missing := false
      ownCost := 0
      shownChildren := 0
      shownDescendants := 0
      memory := none
      lastMemory := none
      changesMemory := false
      firstState := (children.head?.map (·.firstState)).getD 0 }
  let t := t.addChildren g inError 0 children
  if inError then
    { t with
      ownCost := t.ownCost + costs.recovery + costs.skippedByte * size.bytes +
        costs.skippedLine * size.rows }
  else t

/-- The place of a kind in the order of symbols. -/
def rank (table : Table) : Kind → Nat
  | .symbol n => table.rank n
  | .skipped => 65534
  | .error => 65535

/-- Goes through two trees side by side and says whether the second one comes first in the order of
symbols, at the first place where they differ. -/
def comesFirst (table : Table) : (fuel : Nat) → List (Tree σ × Tree σ) → Bool
  | 0, _ => false
  | _ + 1, [] => false
  | fuel + 1, (a, b) :: rest =>
    let ra := rank table a.kind
    let rb := rank table b.kind
    if ra < rb then false
    else if rb < ra then true
    else if a.children.length < b.children.length then false
    else if b.children.length < a.children.length then true
    else comesFirst table fuel (a.children.zip b.children ++ rest)

/-- Of two trees over one text, the second one counts. -/
def isBetter (table : Table) (old new : Tree σ) : Bool :=
  if new.cost < old.cost then true
  else if old.cost < new.cost then false
  else if 0 < old.cost then true
  else comesFirst table (old.total.chars + new.total.chars + 1000) [(old, new)]

end Tree

/-- A part of a text that is shown. -/
structure Node where
  label : Label
  /-- What is in front of it. -/
  start : Extent
  size : Extent
  /-- Is there an error in it? -/
  hasError : Bool
  children : List Node
  deriving Inhabited

namespace Tree

variable {σ : Type}

mutual

/-- The shown parts of a tree that stands behind `passed`, under the name `shown` if there is one, in
front of those of `after`. -/
def nodesOf (passed : Extent) (shown : Option Label) (after : List Node) : Tree σ → List Node
  | ⟨_, label, padding, size, children, aliases, _, missing, ownCost, _, _, _, _, _, _⟩ =>
    match shown.or label with
    | some shown =>
      { label := shown
        start := passed + padding
        size
        hasError := missing || ownCost != 0
        children := nodesOfAll passed aliases [] children } :: after
    | none => nodesOfAll passed aliases after children

/-- `nodesOf` for the children of a tree. -/
def nodesOfAll (passed : Extent) (aliases : List (Option Label)) (after : List Node) :
    List (Tree σ) → List Node
  | [] => after
  | c :: rest =>
    let (shown, aliases) := if c.extra then (none, aliases) else (aliases.head?.join, aliases.tail)
    nodesOf passed shown (nodesOfAll (passed + c.total) aliases after rest) c

end

/-- The shown parts of a tree over a whole text. -/
def nodes (t : Tree σ) : List Node := nodesOf {} none [] t

end Tree

namespace Node

/-- The text of a part. -/
def text (cs : List Char) (n : Node) : String :=
  String.ofList ((cs.drop n.start.chars).take n.size.chars)

/-- The parts of a part that are named. -/
def namedChildren (n : Node) : List Node := n.children.filter (·.label.named)

/-- The part is shown under a name. -/
def isNamed (name : String) (n : Node) : Bool := n.label.name == name

end Node

end BaselineAudit.Parsing
