import BaselineAudit.Proofs.Parsing.Lexing

/-!
# Sound stacks

All ways of parsing share one stack, which grows, is merged and is walked down. A stack is sound for a
text if each tree in it stands in the text where its node says.

Some languages need to know more about which trees stand between which states. That is left open here:
a `Discipline` says what holds of trees and of what joins two states, and that the moves of the parser
keep to it. It holds of the nodes that can be reached from a head that is followed (`Stack.Good`); what
is put on top of a head that is given up right away does not count.

* `Stack.Sound`: the invariant of the parser.
* `Stack.Extends`: what later stacks keep of earlier ones.
* `Stack.push_sound`, `Stack.merge?_spec`: the moves on a stack keep it sound.
-/

namespace BaselineAudit.Parsing

variable {σ : Type}

/-- Trees between two states, the lower one last, and how many of them count as deep. -/
inductive Chain (joins : Nat → Option (Tree σ) → Nat → Prop) (top : Nat) :
    Nat → List (Tree σ) → Nat → Prop
  | nil : Chain joins top top [] 0
  | tree {p q t ts d} : Chain joins top q ts d → joins p (some t) q →
      Chain joins top p (t :: ts) (if t.extra then d else d + 1)
  | mark {p q ts d} : Chain joins top q ts d → joins p none q → Chain joins top p ts (d + 1)

/-- The parts of a tree cover all of its text. That is not so for a token, which has no parts. -/
def Tree.Inner (t : Tree σ) : Prop := ∀ w, t.Covers w → Tree.CoversAll t.children w

/-- A tree without text covers nothing. -/
theorem Tree.inner_of_total {t : Tree σ} (hc : t.children = []) (ht : t.total = {}) : t.Inner := by
  intro w hw
  rw [hc, Tree.coversAll_nil, ← List.length_eq_zero_iff, ← Extent.chars_ofChars, ← hw.total_eq, ht]

theorem Tree.inner_node (g : Productions) (kind : Kind) (children : List (Tree σ))
    (aliases : List (Option Label)) : (Tree.node g kind children aliases).Inner := by
  intro w hw
  rcases (Tree.covers_iff.mp hw).2 with h | h
  · rw [Tree.node_children] at h
    subst h
    exact Tree.inner_of_total (Tree.node_children ..)
      (by rw [Tree.total, Tree.node_padding, Tree.node_size]; rfl) w hw
  · exact h

/-- The tree of a whole text: it is made of the parts of one, or is an error. It is no mere token. -/
def Tree.Entire (g : Productions) (t : Tree σ) : Prop :=
  t.Inner ∧ (t.kind = .error ∨ t.kind = .symbol (g.ruleSymbol 0))

/-- What holds of the trees on the stacks of a parser, and of what joins two states. -/
structure Discipline (lang : Language σ) where
  sound : Tree σ → Prop
  joins : Nat → Option (Tree σ) → Nat → Prop
  /-- What holds of a token when it is read. -/
  token : Tree σ → Prop
  /-- Only the end of a text may stand anywhere as it is read. -/
  token_extra : ∀ {t}, token t →
    (t.extra = true ↔ t.kind = .symbol lang.table.grammar.endSymbol)
  token_sound : ∀ {t b}, token t → (b = true → t.kind ≠ .error) → sound { t with extra := b }
  children_sound : ∀ {t c}, sound t → c ∈ t.children → sound c
  sound_error : ∀ {t}, sound t → t.kind = .error → t.extra = true → t.Inner
  error_sound : ∀ {ts b}, (∀ t ∈ ts, sound t) →
    sound { Tree.node lang.table.grammar .error ts [] with extra := b }
  skipped_sound : ∀ {ts}, (∀ t ∈ ts, sound t) → sound (Tree.node lang.table.grammar .skipped ts [])
  missing_sound : ∀ {n state}, sound
    { Tree.leaf lang.table.grammar (.symbol n) {} {} state with missing := true }
  shift_joins : ∀ {t n p q}, token t → t.kind = .symbol n →
    lang.table.action? p n = some (.shift q) → joins p (some { t with extra := false }) q
  extra_joins : ∀ {t p}, sound t → t.extra = true → joins p (some t) p
  reduce : ∀ {p q ts n rule count aliases again}, Chain joins q p ts count → (∀ t ∈ ts, sound t) →
    lang.table.action? q n = some (.reduce rule count aliases again) →
    let t := Tree.node lang.table.grammar (.symbol (lang.table.grammar.ruleSymbol rule))
      (Language.splitTrailing ts).1 aliases
    sound t ∧ joins p (some t) (lang.table.next p (lang.table.grammar.ruleSymbol rule))
  missing_joins : ∀ {n p state}, n ∈ lang.table.terminals → lang.table.next p n ≠ 0 →
    lang.table.next p n ≠ p → joins p
      (some { Tree.leaf lang.table.grammar (.symbol n) {} {} state with missing := true })
      (lang.table.next p n)
  mark_joins : ∀ {p}, joins p none 0
  skipped_joins : ∀ {p ts}, joins p (some (Tree.node lang.table.grammar .skipped ts [])) 0
  joins_error : ∀ {p q t}, joins p (some t) q → t.kind = .error → t.extra = true
  joins_extra : ∀ {p q t}, joins p (some t) q → t.extra = true → p = q
  joins_mark : ∀ {p q}, joins p none q → q = 0
  joins_accept : ∀ {p q t n}, joins p (some t) q → t.extra = false →
    lang.table.action? q n = some .accept → t.Entire lang.table.grammar
  accept_end : ∀ {q n}, lang.table.action? q n = some .accept →
    n = lang.table.grammar.endSymbol ∧ q ≠ 0
  forward : lang.ScansForward
  lex_token : ∀ [DecidableEq σ] {s h state}, token (lang.lex s h state)

/-- A tree stands between two places; the mark of an error takes no text. -/
def Discipline.Between {lang : Language σ} (D : Discipline lang) (p : Place) :
    Option (Tree σ) → Place → Prop
  | some t, q => D.sound t ∧ ∃ w, t.Covers w ∧ p.Behind w q
  | none, q => p = q

namespace Stack

variable {lang : Language σ} (D : Discipline lang) (cs : List Char)

/-! ## The invariant -/

section

variable (s : Stack σ)

/-- The tree of a way down from node `n` stands between the places of the two nodes. -/
def Fits (n : Nat) (l : Link σ) : Prop :=
  l.below < s.nodes.size ∧ D.Between (s.node l.below).place l.tree (s.node n).place

/-- The way down from node `n` joins the states of the two nodes. -/
def Joins (n : Nat) (l : Link σ) : Prop :=
  D.joins (s.node l.below).state l.tree (s.node n).state

/-- A set of nodes that is closed under going down, all ways down from which join the states. -/
def Closed (g : Nat → Prop) : Prop :=
  ∀ n, g n → n < s.nodes.size ∧ ∀ l ∈ (s.node n).links, g l.below ∧ s.Joins D n l

/-- All ways down from a node join the states of their ends. -/
def Good (n : Nat) : Prop := ∃ g, s.Closed D g ∧ g n

/-- A node stands in the text, where the trees below it say; at its start, if there are none. -/
structure NodeOk (n : Nat) : Prop where
  place : (s.node n).place.Of cs
  bottom : (s.node n).links = [] → (s.node n).place = .start cs
  fits : ∀ l ∈ (s.node n).links, s.Fits D n l

/-- All nodes stand in the text. -/
def NodesOk : Prop := ∀ n < s.nodes.size, s.NodeOk D cs n

/-- A head that is followed stands on a good node, and the token at which it stopped fits there. -/
structure HeadOk (h : Head σ) : Prop where
  lt : h.node < s.nodes.size
  good : h.status.isHalted = false → s.Good D h.node
  paused : ∀ t, h.status = .paused t → D.token t ∧ t.Fits (s.top h).place

/-- The invariant of the parser. -/
structure Sound : Prop where
  nodes : s.NodesOk D cs
  heads : ∀ {i : Nat} {h}, s.heads[i]? = some h → s.HeadOk D h

/-- What a later stack keeps of an earlier one. -/
structure Extends (s' : Stack σ) : Prop where
  size : s.nodes.size ≤ s'.nodes.size
  node : ∀ n < s.nodes.size, (s'.node n).state = (s.node n).state ∧
    (s'.node n).place = (s.node n).place
  good : ∀ {n}, s.Good D n → s'.Good D n

end

variable {D cs} {s s' s'' : Stack σ}

theorem Good.lt {n : Nat} (h : s.Good D n) : n < s.nodes.size := by
  obtain ⟨g, hg, hn⟩ := h
  exact (hg n hn).1

theorem Good.below {n : Nat} (h : s.Good D n) {l : Link σ} (hl : l ∈ (s.node n).links) :
    s.Good D l.below ∧ s.Joins D n l := by
  obtain ⟨g, hg, hn⟩ := h
  obtain ⟨hb, hj⟩ := (hg n hn).2 l hl
  exact ⟨⟨g, hg, hb⟩, hj⟩

theorem Extends.refl (s : Stack σ) : s.Extends D s :=
  ⟨Nat.le_refl _, fun _ _ => ⟨rfl, rfl⟩, id⟩

theorem Extends.trans (h : s.Extends D s') (h' : s'.Extends D s'') : s.Extends D s'' := by
  refine ⟨Nat.le_trans h.size h'.size, fun n hn => ?_, fun hg => h'.good (h.good hg)⟩
  obtain ⟨h₁, h₂⟩ := h.node n hn
  obtain ⟨h₃, h₄⟩ := h'.node n (Nat.lt_of_lt_of_le hn h.size)
  exact ⟨h₃.trans h₁, h₄.trans h₂⟩

theorem Fits.mono {n : Nat} {l : Link σ} (h : s.Fits D n l) (he : s.Extends D s')
    (hn : n < s.nodes.size) : s'.Fits D n l := by
  obtain ⟨hb, h⟩ := h
  refine ⟨Nat.lt_of_lt_of_le hb he.size, ?_⟩
  rw [(he.node _ hb).2, (he.node _ hn).2]
  exact h

theorem Joins.mono {n : Nat} {l : Link σ} (h : s.Joins D n l) (he : s.Extends D s')
    (hn : n < s.nodes.size) (hb : l.below < s.nodes.size) : s'.Joins D n l := by
  unfold Joins
  rw [(he.node _ hb).1, (he.node _ hn).1]
  exact h

theorem HeadOk.mono {h : Head σ} (hh : s.HeadOk D h) (he : s.Extends D s') : s'.HeadOk D h := by
  refine ⟨Nat.lt_of_lt_of_le hh.lt he.size, fun hs => he.good (hh.good hs), fun t ht => ?_⟩
  have := hh.paused t ht
  unfold top at this ⊢
  rwa [(he.node _ hh.lt).2]

/-- The good nodes stay good where every way down that is new leads to a good node. -/
theorem extends_of_links (hsize : s.nodes.size ≤ s'.nodes.size)
    (hnode : ∀ n < s.nodes.size, (s'.node n).state = (s.node n).state ∧
      (s'.node n).place = (s.node n).place)
    (hlinks : ∀ n < s.nodes.size, ∀ l ∈ (s'.node n).links,
      l ∈ (s.node n).links ∨ s.Good D l.below ∧ s.Joins D n l) : s.Extends D s' := by
  refine ⟨hsize, hnode, fun {n} hn => ⟨s.Good D, fun m hm => ?_, hn⟩⟩
  refine ⟨Nat.lt_of_lt_of_le hm.lt hsize, fun l hl => ?_⟩
  obtain ⟨hb, hj⟩ : s.Good D l.below ∧ s.Joins D m l := by
    rcases hlinks m hm.lt l hl with hl | h
    · exact hm.below hl
    · exact h
  refine ⟨hb, ?_⟩
  unfold Joins
  rw [(hnode _ hb.lt).1, (hnode _ hm.lt).1]
  exact hj

/-! ## New nodes -/

section NewNode

variable (node : StackNode σ) (heads : Array (Head σ))

/-- The stack with one more node, and other heads. -/
def grown (s : Stack σ) : Stack σ := ⟨s.nodes.push node, heads⟩

theorem node_grown_of_lt {n : Nat} (hn : n < s.nodes.size) : (s.grown node heads).node n = s.node n := by
  simp [grown, Stack.node, Array.getElem?_push, Nat.ne_of_lt hn]

theorem node_grown_self : (s.grown node heads).node s.nodes.size = node := by
  simp [grown, Stack.node]

theorem extends_grown : s.Extends D (s.grown node heads) := by
  refine extends_of_links ?_ (fun n hn => ?_) (fun n hn l hl => ?_)
  · simp [grown]
  · rw [node_grown_of_lt _ _ hn]
    exact ⟨rfl, rfl⟩
  · rw [node_grown_of_lt _ _ hn] at hl
    exact .inl hl

theorem nodesOk_grown (hs : s.NodesOk D cs) (hp : node.place.Of cs) (hne : node.links ≠ [])
    (hl : ∀ l ∈ node.links, (s.grown node heads).Fits D s.nodes.size l) :
    (s.grown node heads).NodesOk D cs := by
  have he : s.Extends D (s.grown node heads) := extends_grown node heads
  intro n hn
  rcases Nat.lt_or_ge n s.nodes.size with hlt | hge
  · obtain ⟨hp, hb, hl⟩ := hs n hlt
    rw [← node_grown_of_lt node heads hlt] at hp hb hl
    exact ⟨hp, hb, fun l h => (hl l h).mono he hlt⟩
  · obtain rfl : n = s.nodes.size := by
      have : n < s.nodes.size + 1 := by simpa [grown] using hn
      omega
    constructor
    all_goals rw [node_grown_self]
    · exact hp
    · exact fun h => absurd h hne
    · exact hl

theorem good_grown (hl : ∀ l ∈ node.links, s.Good D l.below ∧
      D.joins (s.node l.below).state l.tree node.state) :
    (s.grown node heads).Good D s.nodes.size := by
  have he : s.Extends D (s.grown node heads) := extends_grown node heads
  -- the new node together with the good nodes is closed
  refine ⟨fun n => n = s.nodes.size ∨ (s.grown node heads).Good D n, fun n hn => ?_, .inl rfl⟩
  rcases hn with rfl | hn
  · refine ⟨by simp [grown], fun l h => ?_⟩
    rw [node_grown_self] at h
    obtain ⟨hb, hj⟩ := hl l h
    refine ⟨.inr (he.good hb), ?_⟩
    unfold Joins
    rwa [node_grown_of_lt _ _ hb.lt, node_grown_self]
  · exact ⟨hn.lt, fun l h => ⟨.inr (hn.below h).1, (hn.below h).2⟩⟩

end NewNode

/-! ## Putting trees on top -/

/-- Head `v` is followed, at a place and in a state. -/
def Standing (s : Stack σ) (v : Nat) (place : Place) (state : Nat) : Prop :=
  ∃ h, s.heads[v]? = some h ∧ h.status = .active ∧ (s.top h).place = place ∧
    (s.top h).state = state

/-- The first `k` heads stand where they stood, and are followed if they were. -/
def Keeps (k : Nat) (s s' : Stack σ) : Prop :=
  ∀ i < k, ∀ h, s.heads[i]? = some h →
    ∃ h', s'.heads[i]? = some h' ∧ h'.node = h.node ∧ h'.status = h.status

theorem Keeps.refl (k : Nat) (s : Stack σ) : Keeps k s s := fun _ _ h hh => ⟨h, hh, rfl, rfl⟩

theorem Keeps.trans {k : Nat} (h : Keeps k s s') (h' : Keeps k s' s'') : Keeps k s s'' := by
  intro i hi x hx
  obtain ⟨y, hy, hn, hs⟩ := h i hi x hx
  obtain ⟨z, hz, hn', hs'⟩ := h' i hi y hy
  exact ⟨z, hz, hn'.trans hn, hs'.trans hs⟩

theorem Keeps.of_le {j k : Nat} (h : Keeps k s s') (hj : j ≤ k) : Keeps j s s' := fun i hi =>
  h i (Nat.lt_of_lt_of_le hi hj)

theorem Standing.mono {v k : Nat} {place : Place} {state : Nat} (h : s.Standing v place state)
    (hs : s.Sound D cs) (he : s.Extends D s') (hk : Keeps k s s') (hv : v < k) :
    s'.Standing v place state := by
  obtain ⟨x, hx, ha, hp, hst⟩ := h
  obtain ⟨y, hy, hn, hs'⟩ := hk v hv x hx
  have hlt := (hs.heads hx).lt
  refine ⟨y, hy, hs'.trans ha, ?_, ?_⟩
  · rw [top, hn, (he.node _ hlt).2]
    exact hp
  · rw [top, hn, (he.node _ hlt).1]
    exact hst

theorem extends_withHeads (s : Stack σ) (heads : Array (Head σ)) :
    s.Extends D { s with heads } :=
  ⟨Nat.le_refl _, fun _ _ => ⟨rfl, rfl⟩, id⟩

theorem NodesOk.withHeads (hs : s.NodesOk D cs) (heads : Array (Head σ)) :
    NodesOk D cs { s with heads } := fun n hn =>
  ⟨(hs n hn).place, (hs n hn).bottom, (hs n hn).fits⟩

theorem sound_withHeads (hs : s.Sound D cs) {heads : Array (Head σ)}
    (hh : ∀ {i : Nat} {h}, heads[i]? = some h → s.HeadOk D h) :
    Sound D cs { s with heads } :=
  ⟨hs.nodes.withHeads heads, fun h => (hh h).mono (extends_withHeads s heads)⟩

/-- The node that `push` puts on top of another. -/
def above (n : Nat) (below : StackNode σ) (state : Nat) : Option (Tree σ) → StackNode σ
  | some t =>
    { state
      links := [⟨n, some t⟩]
      place := ⟨below.place.passed + t.total, below.place.rest.drop t.total.chars⟩
      cost := below.cost + t.cost
      weight := below.weight + t.weight }
  | none => { below with state, links := [⟨n, none⟩] }

theorem push_eq {v : Nat} {h : Head σ} (hv : s.heads[v]? = some h) (tree : Option (Tree σ))
    (state : Nat) :
    s.push v tree state = s.grown (above h.node (s.top h) state tree)
      (s.heads.modify v fun h' =>
        { h' with
          node := s.nodes.size
          weightAtError := if tree.isNone then (above h.node (s.top h) state tree).weight
            else h'.weightAtError }) := by
  unfold push
  rw [hv]
  cases tree <;> rfl

theorem above_links (n : Nat) (below : StackNode σ) (state : Nat) (tree : Option (Tree σ)) :
    (above n below state tree).links = [⟨n, tree⟩] := by
  cases tree <;> rfl

theorem above_state (n : Nat) (below : StackNode σ) (state : Nat) (tree : Option (Tree σ)) :
    (above n below state tree).state = state := by
  cases tree <;> rfl

/-- The place above a tree is the one behind its text. -/
theorem above_place (n : Nat) {below : StackNode σ} (state : Nat) {t : Tree σ} {w : List Char}
    {q : Place} (ht : t.Covers w) (hq : below.place.Behind w q) :
    (above n below state (some t)).place = q := by
  obtain ⟨h₁, h₂⟩ := hq
  show (⟨below.place.passed + t.total, below.place.rest.drop t.total.chars⟩ : Place) = q
  rw [ht.total_eq, ← h₂, Extent.chars_ofChars, h₁, List.drop_left]

theorem above_between (n : Nat) {below : StackNode σ} (state : Nat) {tree : Option (Tree σ)}
    {q : Place} (h : D.Between below.place tree q) : (above n below state tree).place = q := by
  cases tree with
  | none => exact h
  | some t =>
    obtain ⟨-, w, hw, hq⟩ := h
    exact above_place n state hw hq

section Push

variable {v : Nat} {h : Head σ} {tree : Option (Tree σ)} {q : Place} (state : Nat)

/-- Putting something on top of a head adds a node. -/
theorem push_nodes (hs : s.NodesOk D cs) (hv : s.heads[v]? = some h) (hlt : h.node < s.nodes.size)
    (hb : D.Between (s.top h).place tree q) :
    (s.push v tree state).NodesOk D cs ∧ s.Extends D (s.push v tree state) ∧
      ((s.push v tree state).node s.nodes.size).place = q ∧
      ((s.push v tree state).node s.nodes.size).state = state ∧
      s.nodes.size < (s.push v tree state).nodes.size ∧
      (s.Good D h.node → D.joins (s.top h).state tree state →
        (s.push v tree state).Good D s.nodes.size) := by
  have hq : q.Of cs := by
    cases tree with
    | none => exact hb ▸ (hs _ hlt).1
    | some t =>
      obtain ⟨-, w, -, hq⟩ := hb
      exact (hs _ hlt).1.behind hq
  have hplace := above_between h.node state hb
  rw [push_eq hv]
  refine ⟨nodesOk_grown _ _ hs (hplace ▸ hq) (by simp [above_links]) fun l hl => ?_,
    extends_grown _ _, ?_, ?_, ?_, ?_⟩
  · rw [above_links, List.mem_singleton] at hl
    subst hl
    refine ⟨Nat.lt_of_lt_of_le hlt (extends_grown (D := D) _ _).size, ?_⟩
    rw [node_grown_of_lt _ _ hlt, node_grown_self, hplace]
    exact hb
  · rw [node_grown_self, hplace]
  · rw [node_grown_self, above_state]
  · simp [grown]
  · intro hg hj
    refine good_grown _ _ fun l hl => ?_
    rw [above_links, List.mem_singleton] at hl
    subst hl
    rw [above_state]
    exact ⟨hg, hj⟩

theorem push_heads (tree : Option (Tree σ)) (state : Nat) (hv : s.heads[v]? = some h) (i : Nat) :
    (s.push v tree state).heads[i]? =
      if v = i then some { h with
        node := s.nodes.size
        weightAtError := if tree.isNone then (above h.node (s.top h) state tree).weight
          else h.weightAtError }
      else s.heads[i]? := by
  rw [push_eq hv, grown, Array.getElem?_modify]
  split
  · rename_i hi
    rw [← hi, hv]
    rfl
  · rfl

/-- Putting something on top of a head that is followed. -/
theorem push_sound (hs : s.Sound D cs) (hv : s.heads[v]? = some h) (ha : h.status = .active)
    (hb : D.Between (s.top h).place tree q) (hj : D.joins (s.top h).state tree state) :
    (s.push v tree state).Sound D cs ∧ s.Extends D (s.push v tree state) ∧
      (s.push v tree state).Standing v q state ∧
      ∀ i, v ≠ i → (s.push v tree state).heads[i]? = s.heads[i]? := by
  obtain ⟨hn, he, hq, hst, hlt, hg⟩ := push_nodes state hs.nodes hv (hs.heads hv).lt hb
  refine ⟨⟨hn, fun {i x} hx => ?_⟩, he, ?_, fun i hi => ?_⟩
  · rw [push_heads tree state hv] at hx
    split at hx
    · rw [← Option.some.inj hx]
      refine ⟨hlt, fun _ => hg ((hs.heads hv).good ?_) hj, fun t ht => ?_⟩
      · rw [ha]; rfl
      · exact absurd (ha.symm.trans ht) (by simp)
    · exact (hs.heads hx).mono he
  · exact ⟨_, (push_heads tree state hv v).trans (if_pos rfl), ha, hq, hst⟩
  · rw [push_heads tree state hv, if_neg hi]

/-- Putting trees that may stand anywhere on top of a head, one after the other. -/
theorem pushAll_sound {ts : List (Tree σ)} {p : Place} {w : List Char} (hs : s.Sound D cs)
    (hv : s.Standing v p state) (hw : Tree.CoversAll ts w) (hq : p.Behind w q)
    (ht : ∀ t ∈ ts, D.sound t ∧ t.extra = true) :
    (Language.pushAll s v ts state).Sound D cs ∧ s.Extends D (Language.pushAll s v ts state) ∧
      (Language.pushAll s v ts state).Standing v q state ∧
      ∀ i, v ≠ i → (Language.pushAll s v ts state).heads[i]? = s.heads[i]? := by
  induction ts generalizing s p w with
  | nil =>
    rw [Tree.coversAll_nil.mp hw] at hq
    obtain rfl := hq.unique (.refl p)
    exact ⟨hs, .refl s, hv, fun _ _ => rfl⟩
  | cons t ts ih =>
    obtain ⟨u, v', rfl, hu, hv'⟩ := Tree.coversAll_cons.mp hw
    obtain ⟨h, hh, ha, rfl, hst⟩ := hv
    obtain ⟨hts, hte⟩ := ht t (List.mem_cons_self ..)
    -- the place between the first tree and the others
    obtain ⟨m, hm, hmq⟩ := hq.between
    have hj : D.joins (s.top h).state (some t) state := hst ▸ D.extra_joins hts hte
    obtain ⟨hs', he, hv, hk⟩ := push_sound state hs hh ha (show D.Between _ (some t) m from
      ⟨hts, u, hu, hm⟩) hj
    obtain ⟨hs'', he', hv'', hk'⟩ := ih hs' hv hv' hmq fun x hx => ht x (List.mem_cons_of_mem t hx)
    exact ⟨hs'', he.trans he', hv'', fun i hi => (hk' i hi).trans (hk i hi)⟩

end Push

/-! ## Merging -/

section Merge

/-- A way down that can be added to a node. -/
structure LinkOk (D : Discipline lang) (s : Stack σ) (n : Nat) (l : Link σ) : Prop where
  fits : s.Fits D n l
  good : s.Good D l.below
  joins : s.Joins D n l

theorem LinkOk.mono {n : Nat} {l : Link σ} (h : LinkOk D s n l) (he : s.Extends D s')
    (hn : n < s.nodes.size) : LinkOk D s' n l :=
  ⟨h.fits.mono he hn, he.good h.good, h.joins.mono he hn h.good.lt⟩

/-- A node with one more way down, which keeps its state and its place. -/
theorem relink_spec {n : Nat} {l : Link σ} (weight : Nat) (hs : s.NodesOk D cs)
    (hn : n < s.nodes.size) (hl : LinkOk D s n l) :
    let s' : Stack σ := { s with
      nodes := s.nodes.setIfInBounds n { s.node n with links := (s.node n).links ++ [l], weight } }
    s'.NodesOk D cs ∧ s.Extends D s' := by
  intro s'
  have hnode : ∀ m, s'.node m =
      if m = n then { s.node n with links := (s.node n).links ++ [l], weight } else s.node m := by
    intro m
    show (s.nodes.setIfInBounds n _).getD m _ = _
    by_cases hm : m = n
    · subst hm
      simp [hn]
    · simp [hm, Stack.node, Array.getElem?_setIfInBounds_ne (Ne.symm hm)]
  have hsame : ∀ m, (s'.node m).state = (s.node m).state ∧ (s'.node m).place = (s.node m).place := by
    intro m
    rw [hnode]
    split
    · rename_i h
      rw [h]
      exact ⟨rfl, rfl⟩
    · exact ⟨rfl, rfl⟩
  have hlinks : ∀ m, ∀ l' ∈ (s'.node m).links, l' ∈ (s.node m).links ∨ m = n ∧ l' = l := by
    intro m l' h
    rw [hnode] at h
    split at h
    · rename_i hm
      rcases List.mem_append.mp h with h | h
      · exact .inl (hm ▸ h)
      · exact .inr ⟨hm, List.mem_singleton.mp h⟩
    · exact .inl h
  have he : s.Extends D s' := by
    refine extends_of_links (by simp [s']) (fun m _ => hsame m) fun m _ l' h => ?_
    rcases hlinks m l' h with h | ⟨rfl, rfl⟩
    · exact .inl h
    · exact .inr ⟨hl.good, hl.joins⟩
  refine ⟨fun m h => ?_, he⟩
  have hm : m < s.nodes.size := by simpa [s'] using h
  refine ⟨(hsame m).2 ▸ (hs m hm).place, fun h => ?_, fun l' h => ?_⟩
  · rw [(hsame m).2]
    refine (hs m hm).bottom ?_
    rw [hnode] at h
    split at h
    · exact absurd h (by simp)
    · exact h
  · rcases hlinks m l' h with h | ⟨rfl, rfl⟩
    · exact ((hs m hm).fits l' h).mono he hm
    · exact hl.fits.mono he hn

variable [DecidableEq σ] (initial : σ)

/-- What `addLink` keeps. -/
theorem addLink_spec (fuel : Nat) {n : Nat} {l : Link σ} (hs : s.NodesOk D cs) (hn : n < s.nodes.size)
    (hl : LinkOk D s n l) :
    (addLink initial fuel s n l).NodesOk D cs ∧ s.Extends D (addLink initial fuel s n l) ∧
      (addLink initial fuel s n l).heads = s.heads := by
  induction fuel generalizing s n l with
  | zero => exact ⟨hs, .refl s, rfl⟩
  | succ fuel ih =>
    rw [addLink]
    split
    · exact ⟨hs, .refl s, rfl⟩
    · simp only
      split
      · rename_i l' hfind
        split
        · exact ⟨hs, .refl s, rfl⟩
        · -- the node below is like the one that the way is to lead to
          rename_i hne
          have hmem := List.mem_of_find?_eq_some hfind
          have hlt : l'.below < s.nodes.size := ((hs n hn).fits l' hmem).1
          obtain ⟨hstate, hplace⟩ : (s.node l'.below).state = (s.node l.below).state ∧
              (s.node l'.below).place = (s.node l.below).place := by
            have h := List.find?_some hfind
            simp only [Bool.and_eq_true, Bool.or_eq_true, beq_iff_eq] at h
            obtain ⟨⟨h₁, h₂⟩, -⟩ := h.2.resolve_left hne
            exact ⟨h₁, (hs _ hlt).1.eq_of_bytes (hs _ hl.fits.1).1 h₂⟩
          have hlinks : ∀ x ∈ (s.node l.below).links, LinkOk D s l'.below x := by
            intro x hx
            obtain ⟨hxl, hxb⟩ := (hs _ hl.fits.1).fits x hx
            obtain ⟨hg, hj⟩ := hl.good.below hx
            refine ⟨⟨hxl, hplace ▸ hxb⟩, hg, ?_⟩
            unfold Joins
            rw [hstate]
            exact hj
          generalize (s.node l.below).links = links at hlinks
          clear hl hn hmem hfind hne hstate hplace
          induction links generalizing s with
          | nil => exact ⟨hs, .refl s, rfl⟩
          | cons x links ihl =>
            obtain ⟨h₁, h₂, h₃⟩ := ih hs hlt (hlinks x (List.mem_cons_self ..))
            obtain ⟨h₄, h₅, h₆⟩ := ihl h₁ (Nat.lt_of_lt_of_le hlt h₂.size) fun y hy =>
              (hlinks y (List.mem_cons_of_mem x hy)).mono h₂ hlt
            exact ⟨h₄, h₂.trans h₅, h₆.trans h₃⟩
      · split
        · exact ⟨hs, .refl s, rfl⟩
        · obtain ⟨h₁, h₂⟩ := relink_spec _ hs hn hl
          exact ⟨h₁, h₂, rfl⟩

theorem addLinks_spec (fuel : Stack σ → Nat) {n : Nat} {links : List (Link σ)}
    (hs : s.NodesOk D cs) (hn : n < s.nodes.size) (hl : ∀ l ∈ links, LinkOk D s n l) :
    let s' := links.foldl (fun s l => addLink initial (fuel s) s n l) s
    s'.NodesOk D cs ∧ s.Extends D s' ∧ s'.heads = s.heads := by
  induction links generalizing s with
  | nil => exact ⟨hs, .refl s, rfl⟩
  | cons l links ih =>
    obtain ⟨h₁, h₂, h₃⟩ := addLink_spec initial (fuel s) hs hn (hl l (List.mem_cons_self ..))
    obtain ⟨h₄, h₅, h₆⟩ := ih h₁ (Nat.lt_of_lt_of_le hn h₂.size) fun x hx =>
      (hl x (List.mem_cons_of_mem l hx)).mono h₂ hn
    exact ⟨h₄, h₂.trans h₅, h₆.trans h₃⟩

end Merge

/-! ## Heads -/

theorem HeadOk.congr {h h' : Head σ} (hh : s.HeadOk D h) (hn : h'.node = h.node)
    (hs : h'.status = h.status) : s.HeadOk D h' := by
  refine ⟨hn ▸ hh.lt, fun h => hn ▸ hh.good (hs ▸ h), fun t ht => ?_⟩
  have := hh.paused t (hs ▸ ht)
  unfold top at this ⊢
  rwa [hn]

theorem getElem?_removeHead (s : Stack σ) (v i : Nat) :
    (s.removeHead v).heads[i]? = if i < v then s.heads[i]? else s.heads[i + 1]? := by
  rw [removeHead, ← Array.getElem?_toList, Array.toList_eraseIdxIfInBounds, List.getElem?_eraseIdx]
  simp only [Array.getElem?_toList]

theorem getElem?_modifyHead (s : Stack σ) (v : Nat) (f : Head σ → Head σ) (i : Nat) :
    (s.modifyHead v f).heads[i]? = if v = i then s.heads[i]?.map f else s.heads[i]? := by
  rw [modifyHead, Array.getElem?_modify]

theorem removeHead_sound (hs : s.Sound D cs) (v : Nat) : (s.removeHead v).Sound D cs := by
  refine sound_withHeads hs fun {i h} hi => ?_
  replace hi := (getElem?_removeHead s v i).symm.trans hi
  split at hi
  · exact hs.heads hi
  · exact hs.heads hi

/-- A head may be changed into one that is sound there. -/
theorem modifyHead_sound (hs : s.Sound D cs) (v : Nat) (f : Head σ → Head σ)
    (hf : ∀ h, s.heads[v]? = some h → s.HeadOk D (f h)) : (s.modifyHead v f).Sound D cs := by
  refine sound_withHeads hs fun {i h} hi => ?_
  replace hi := (getElem?_modifyHead s v f i).symm.trans hi
  split at hi
  · rename_i hv
    subst hv
    obtain ⟨x, hx, rfl⟩ := Option.map_eq_some_iff.mp hi
    exact hf x hx
  · exact hs.heads hi

theorem halted_headOk {h : Head σ} (hlt : h.node < s.nodes.size) :
    s.HeadOk D { h with status := .halted } :=
  ⟨hlt, fun h => absurd h (by simp [Status.isHalted]), fun _ h => absurd h (by simp)⟩

theorem halt_sound (hs : s.Sound D cs) (v : Nat) : (s.halt v).Sound D cs :=
  modifyHead_sound hs v _ fun _ hx => halted_headOk (hs.heads hx).lt

theorem Sound.of_nodes (hs : s.Sound D cs) (hn : s'.NodesOk D cs) (he : s.Extends D s')
    (hh : s'.heads = s.heads) : s'.Sound D cs :=
  ⟨hn, fun h => (hs.heads (hh ▸ h)).mono he⟩

section Merge

variable [DecidableEq σ] (initial : σ)

/-- Two heads that can be merged stand at one place, in one state. -/
theorem canMerge_spec (hs : s.Sound D cs) {a b : Nat} {x y : Head σ} (hx : s.heads[a]? = some x)
    (hy : s.heads[b]? = some y) (h : s.canMerge a b = true) :
    x.status = .active ∧ y.status = .active ∧ (s.top x).state = (s.top y).state ∧
      (s.top x).place = (s.top y).place := by
  unfold canMerge at h
  rw [hx, hy] at h
  simp only [Bool.and_eq_true, beq_iff_eq] at h
  obtain ⟨⟨⟨⟨⟨h₁, h₂⟩, h₃⟩, h₄⟩, -⟩, -⟩ := h
  have active : ∀ {t : Status σ}, t.isActive = true → t = .active := by
    intro t ht
    cases t <;> first | rfl | exact absurd ht (by simp [Status.isActive])
  refine ⟨active h₁, active h₂, h₃, ?_⟩
  exact (hs.nodes _ (hs.heads hx).lt).1.eq_of_bytes (hs.nodes _ (hs.heads hy).lt).1 h₄

/-- Merging a head into one in front of it. The heads behind it move up. -/
theorem merge?_spec (hs : s.Sound D cs) {a b : Nat} (hab : a < b)
    (h : s.merge? initial a b = some s') :
    s'.Sound D cs ∧ s.Extends D s' ∧ Keeps b s s' ∧
      ∀ (i : Nat) (x' : Head σ), s'.heads[i]? = some x' →
        ∃ x, s.heads[if i < b then i else i + 1]? = some x ∧ x'.node = x.node ∧
          x'.status = x.status := by
  unfold merge? at h
  split at h
  · rename_i hc
    split at h
    · rename_i x y hx hy
      obtain ⟨hax, hay, hst, hp⟩ := canMerge_spec hs hx hy hc
      have hgood : s.Good D y.node := (hs.heads hy).good (by rw [hay]; rfl)
      have hlinks : ∀ l ∈ (s.top y).links, LinkOk D s x.node l := by
        intro l hl
        obtain ⟨hb, hf⟩ := (hs.nodes _ (hs.heads hy).lt).fits l hl
        obtain ⟨hg, hj⟩ := hgood.below hl
        refine ⟨⟨hb, ?_⟩, hg, ?_⟩
        · rw [show (s.node x.node).place = (s.node y.node).place from hp]
          exact hf
        · unfold Joins
          rw [show (s.node x.node).state = (s.node y.node).state from hst]
          exact hj
      obtain ⟨h₁, h₂, h₃⟩ := addLinks_spec initial (fun s => s.nodes.size + 1) hs.nodes
        (hs.heads hx).lt hlinks
      simp only at h
      generalize hs₁ : (s.top y).links.foldl
        (fun s l => addLink initial (s.nodes.size + 1) s x.node l) s = s₁ at h h₁ h₂ h₃
      have hs₁ := hs.of_nodes h₁ h₂ h₃
      -- only the weight at the last error of the first head changes
      have hheads : ∀ i, s'.heads[i]? = if i < b then
          (if a = i then s.heads[i]?.map fun h => if (s₁.node h.node).state = 0 then
            { h with weightAtError := (s₁.node h.node).weight } else h else s.heads[i]?)
          else s.heads[i + 1]? := by
        intro i
        rw [← Option.some.inj h, getElem?_removeHead, getElem?_modifyHead, getElem?_modifyHead, h₃]
        split
        · rfl
        · rw [if_neg (by omega)]
      have hweight : ∀ h : Head σ,
          (if (s₁.node h.node).state = 0 then { h with weightAtError := (s₁.node h.node).weight }
            else h).node = h.node ∧
          (if (s₁.node h.node).state = 0 then { h with weightAtError := (s₁.node h.node).weight }
            else h).status = h.status := by
        intro h
        split <;> exact ⟨rfl, rfl⟩
      refine ⟨?_, ?_, fun i hi x hx => ?_, fun i x' hx' => ?_⟩
      · rw [← Option.some.inj h]
        refine removeHead_sound (modifyHead_sound hs₁ a _ fun h hh => ?_) b
        exact (hs₁.heads hh).congr (hweight h).1 (hweight h).2
      · rw [← Option.some.inj h]
        exact h₂.trans (extends_withHeads s₁ _)
      · rw [hheads, if_pos hi, hx]
        split
        · exact ⟨_, rfl, hweight x⟩
        · exact ⟨x, rfl, rfl, rfl⟩
      · rw [hheads] at hx'
        split at hx'
        · rename_i hi
          rw [if_pos hi]
          split at hx'
          · obtain ⟨x, hx, rfl⟩ := Option.map_eq_some_iff.mp hx'
            exact ⟨x, hx, hweight x⟩
          · exact ⟨x', hx', rfl, rfl⟩
        · rename_i hi
          rw [if_neg hi]
          exact ⟨x', hx', rfl, rfl⟩
    · exact absurd h (by simp)
  · exact absurd h (by simp)

theorem mergeInto?_spec (hs : s.Sound D cs) {b : Nat} {candidates : List Nat}
    (hc : ∀ a ∈ candidates, a < b) (h : s.mergeInto? initial b candidates = some s') :
    s'.Sound D cs ∧ s.Extends D s' ∧ Keeps b s s' ∧
      ∀ (i : Nat) (x' : Head σ), s'.heads[i]? = some x' →
        ∃ x, s.heads[if i < b then i else i + 1]? = some x ∧ x'.node = x.node ∧
          x'.status = x.status := by
  induction candidates with
  | nil => exact absurd h (by simp [mergeInto?])
  | cons a rest ih =>
    rw [mergeInto?] at h
    cases hm : s.merge? initial a b with
    | none =>
      rw [hm, Option.none_or] at h
      exact ih (fun c hc' => hc c (List.mem_cons_of_mem a hc')) h
    | some m =>
      rw [hm, Option.some_or] at h
      obtain rfl := Option.some.inj h
      exact merge?_spec initial hs (hc a (List.mem_cons_self ..)) hm

end Merge

end Stack

end BaselineAudit.Parsing
