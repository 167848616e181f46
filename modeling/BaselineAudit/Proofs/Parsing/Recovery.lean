import BaselineAudit.Proofs.Parsing.Completion

/-!
# Recovery from errors

After an error the parser puts in a token, goes back to a state further down, or skips a token. None
of that takes a tree out of its place.

* `Run.Ok`: the invariant of the parser.
* `Language.accept_ok`: a tree of the whole text that is found covers a first part of it.
* `Language.handleError_ok`: recovering from an error keeps the invariant.
-/

namespace BaselineAudit.Parsing

variable {σ : Type} {lang : Language σ} {D : Discipline lang} {cs : List Char}
  {s s' s'' : Stack σ} {place : Place}

/-! ## Whole texts -/

namespace Tree

/-- A list of trees without the extras at its end, from its last one on. -/
def rear (ts : List (Tree σ)) : List (Tree σ) := ts.reverse.dropWhile (·.extra)

theorem rear_cons (t : Tree σ) (ts : List (Tree σ)) :
    rear (t :: ts) = if (rear ts).isEmpty then (if t.extra then [] else [t]) else rear ts ++ [t] := by
  rw [rear, List.reverse_cons, List.dropWhile_append, List.dropWhile_cons, List.dropWhile_nil]
  rfl

theorem rear_concat (ts : List (Tree σ)) (t : Tree σ) :
    rear (ts ++ [t]) = if t.extra then rear ts else t :: ts.reverse := by
  rw [rear, List.reverse_concat, List.dropWhile_cons]
  rfl

end Tree

namespace Stack

/-- What ends a way down from a node, extras apart, is the tree of a whole text. -/
def Ripe (g : Productions) (s : Stack σ) (n : Nat) : Prop :=
  ∀ w, s.Way n w → ∀ t, (Tree.rear w.trees).head? = some t → t.Entire g

/-- A text may end where the table says so. -/
theorem ripe_of_good {n symbol : Nat} (hg : s.Good D n)
    (ha : lang.table.action? (s.node n).state symbol = some .accept) :
    s.Ripe lang.table.grammar n := by
  intro w hw
  obtain ⟨-, hchain⟩ := hw.chain hg
  -- as long as there are only extras, the way has not left the state
  suffices hrear : Tree.rear w.trees = [] ∧ (s.node w.node).state = (s.node n).state ∨
      ∃ t, (Tree.rear w.trees).head? = some t ∧ t.Entire lang.table.grammar by
    intro t ht
    rcases hrear with ⟨h, -⟩ | ⟨u, hu, hentire⟩
    · exact absurd (h ▸ ht) (by simp)
    · exact Option.some.inj (hu.symm.trans ht) ▸ hentire
  generalize (s.node n).state = top at hchain ha
  generalize (s.node w.node).state = p at hchain
  generalize w.depth = depth at hchain
  generalize w.trees = ts at hchain
  clear hw w hg
  induction hchain with
  | nil => exact .inl ⟨rfl, rfl⟩
  | @tree p q t ts d _ hj ih =>
    rw [Tree.rear_cons]
    rcases ih with ⟨hrear, rfl⟩ | ⟨u, hu, hentire⟩
    · rw [if_pos (by rw [hrear]; rfl)]
      cases ht : t.extra with
      | true => exact .inl ⟨rfl, D.joins_extra hj ht⟩
      | false => exact .inr ⟨t, rfl, D.joins_accept hj ht ha⟩
    · rw [if_neg (by intro h; rw [List.isEmpty_iff.mp h] at hu; exact absurd hu (by simp))]
      exact .inr ⟨u, by rw [List.head?_append, hu]; rfl, hentire⟩
  | mark _ hj ih =>
    rcases ih with ⟨-, rfl⟩ | h
    · exact absurd (D.joins_mark hj) (D.accept_end ha).2
    · exact .inr h

/-- The ways down from a node with one node below it. -/
theorem Way.from_single {n m : Nat} {t : Tree σ} {w : Walker σ} (h : s.Way n w)
    (hl : (s.node n).links = [⟨m, some t⟩]) :
    w.node = n ∧ w.trees = [] ∨ ∃ w', s.Way m w' ∧ w.node = w'.node ∧ w.trees = w'.trees ++ [t] := by
  induction h with
  | start => exact .inl ⟨rfl, rfl⟩
  | @down w l _ hmem ih =>
    rcases ih with ⟨hn, htrees⟩ | ⟨w', hw', hn, htrees⟩
    · rw [hn, hl, List.mem_singleton] at hmem
      subst hmem
      refine .inr ⟨⟨m, [], 0⟩, .start, rfl, ?_⟩
      show t :: w.trees = [t]
      rw [htrees]
    · rw [hn] at hmem
      refine .inr ⟨w'.down l, .down hw' hmem, rfl, ?_⟩
      obtain ⟨below, tree⟩ := l
      cases tree with
      | none => exact htrees
      | some u =>
        show u :: w.trees = u :: w'.trees ++ [t]
        rw [htrees, List.cons_append]

theorem ripe_of_single {g : Productions} {n m : Nat} {t : Tree σ}
    (hl : (s.node n).links = [⟨m, some t⟩]) (hm : t.extra = true → s.Ripe g m)
    (ht : t.extra = false → t.Entire g) : s.Ripe g n := by
  intro w hw u hu
  rcases hw.from_single hl with ⟨-, h⟩ | ⟨w', hw', -, h⟩
  · rw [h] at hu
    exact absurd hu (by simp [Tree.rear])
  · rw [h, Tree.rear_concat] at hu
    split at hu
    · rename_i hx
      exact hm hx w' hw' u hu
    · rename_i hx
      obtain rfl : t = u := Option.some.inj hu
      exact ht (by simpa using hx)

/-- The ways down from a node stay the same when there are more nodes. -/
theorem Ripe.grown {g : Productions} {n : Nat} {node : StackNode σ} {heads : Array (Head σ)}
    (h : s.Ripe g n) (hs : s.NodesOk D cs) (hn : n < s.nodes.size) :
    (s.grown node heads).Ripe g n := by
  intro w hw
  refine h w ?_
  suffices hway : w.node < s.nodes.size ∧ s.Way n w from hway.2
  induction hw with
  | start => exact ⟨hn, .start⟩
  | down _ hl ih =>
    obtain ⟨hlt, hway⟩ := ih
    rw [node_grown_of_lt _ _ hlt] at hl
    exact ⟨((hs _ hlt).fits _ hl).1, .down hway hl⟩

end Stack

/-- A whole text or an error, made of sound parts, that covers a first part of the text. -/
structure Discipline.Whole (D : Discipline lang) (cs : List Char) (t : Tree σ) : Prop where
  entire : t.Entire lang.table.grammar
  label : t.label = Tree.labelOf lang.table.grammar t.kind
  children : ∀ u ∈ t.children, D.sound u
  /-- Its parts are shown under the names that a sound tree of its kind gives them. -/
  aliases : ∃ u, D.sound u ∧ u.kind = t.kind ∧ u.aliases = t.aliases
  covers : ∃ w rest, cs = w ++ rest ∧ t.Covers w

namespace Run

/-- What holds of a parser beside its stack: the tree that it found covers a first part of the text,
and the token that it read last fits wherever as many bytes have passed. -/
structure Fair (D : Discipline lang) (cs : List Char) (r : Run σ) : Prop where
  finished : ∀ t, r.finished = some t → D.Whole cs t
  last : ∀ l, r.lastToken = some l →
    D.token l.tree ∧ ∀ p : Place, p.Of cs → p.bytes = l.bytes → l.tree.Fits p

theorem Fair.withStack {r : Run σ} (h : r.Fair D cs) (s : Stack σ) :
    Fair D cs { r with stack := s } :=
  ⟨h.finished, h.last⟩

/-- The invariant of the parser. -/
structure Ok (D : Discipline lang) (cs : List Char) (r : Run σ) : Prop where
  fair : r.Fair D cs
  stack : r.stack.Sound D cs

theorem Ok.withStack {r : Run σ} (h : r.Ok D cs) (hs : s.Sound D cs) :
    Ok D cs { r with stack := s } :=
  ⟨h.fair.withStack s, hs⟩

end Run

namespace Language

open Stack

/-- The tree of a whole text, from the trees of a way to the bottom. -/
theorem whole_of_rear {ts before : List (Tree σ)} {t : Tree σ} {w rest : List Char}
    (hcs : cs = w ++ rest) (hw : Tree.CoversAll ts w) (hs : ∀ u ∈ ts, D.sound u)
    (hrear : Tree.rear ts = t :: before) (ht : t.Entire lang.table.grammar) :
    D.Whole cs (Tree.node lang.table.grammar t.kind
      (before.reverse ++ t.children ++ (ts.reverse.takeWhile (·.extra)).reverse) t.aliases) := by
  have hts : ts = before.reverse ++ ([t] ++ (ts.reverse.takeWhile (·.extra)).reverse) := by
    have h := List.takeWhile_append_dropWhile (p := (·.extra)) (l := ts.reverse)
    rw [show ts.reverse.dropWhile (·.extra) = t :: before from hrear] at h
    rw [← List.reverse_inj]
    refine h.symm.trans ?_
    simp
  generalize (ts.reverse.takeWhile (·.extra)).reverse = after at hts ⊢
  subst hts
  obtain ⟨hinner, hkind⟩ := ht
  have hchildren : ∀ u ∈ before.reverse ++ t.children ++ after, D.sound u := by
    intro u hu
    rcases List.mem_append.mp hu with hu | hu
    · rcases List.mem_append.mp hu with hu | hu
      · exact hs u (by simp_all)
      · exact D.children_sound (hs t (by simp)) hu
    · exact hs u (by simp_all)
  refine ⟨⟨Tree.inner_node _ _ _ _, by simpa using hkind⟩, by simp, by simpa using hchildren,
    ⟨t, hs t (by simp), by simp, by simp⟩, w, rest, hcs, Tree.covers_node _ _ _ ?_⟩
  obtain ⟨a, b, rfl, ha, hb⟩ := Tree.coversAll_append_inv hw
  obtain ⟨c, d, rfl, hc, hd⟩ := Tree.coversAll_append_inv hb
  obtain ⟨c, _, rfl, hc, hnil⟩ := Tree.coversAll_cons.mp hc
  rw [Tree.coversAll_nil.mp hnil, List.append_nil, ← List.append_assoc]
  exact Tree.coversAll_append (Tree.coversAll_append ha (hinner c hc)) hd

/-- Accepting a text at a node at which it may end. The head need not be a good one, since it is given
up. -/
theorem accept_ok {r : Run σ} {v : Nat} {lookahead : Tree σ} {h : Head σ} (hr : r.Fair D cs)
    (hn : r.stack.NodesOk D cs) (hv : r.stack.heads[v]? = some h)
    (hheads : ∀ i x, v ≠ i → r.stack.heads[i]? = some x → r.stack.HeadOk D x)
    (hlt : h.node < r.stack.nodes.size) (hripe : r.stack.Ripe lang.table.grammar h.node)
    (hl : D.sound lookahead) (hx : lookahead.extra = true)
    (hf : lookahead.Fits (r.stack.top h).place) : (lang.accept r v lookahead).Ok D cs := by
  obtain ⟨text, q, hw, hq⟩ := hf
  obtain ⟨hn', he, hplace, -, hsize, -⟩ := push_nodes 1 hn hv hlt
    (show D.Between _ (some lookahead) q from ⟨hl, text, hw, hq⟩)
  have hself := (push_heads (some lookahead) 1 hv v).trans (if_pos rfl)
  have hripe' : (r.stack.push v (some lookahead) 1).Ripe lang.table.grammar
      r.stack.nodes.size := by
    rw [push_eq hv]
    refine ripe_of_single ?_ (fun _ => hripe.grown hn hlt) fun h => absurd (hx.symm.trans h) (by simp)
    rw [node_grown_self, above_links]
  unfold accept
  simp only [hself]
  have hhalt : ((r.stack.push v (some lookahead) 1).halt v).Sound D cs := by
    refine ⟨hn'.withHeads _, fun {i x} hi => ?_⟩
    rw [halt, getElem?_modifyHead] at hi
    refine HeadOk.mono (s := r.stack.push v (some lookahead) 1) ?_ (extends_withHeads _ _)
    split at hi
    · rename_i hvi
      subst hvi
      rw [hself] at hi
      rw [← Option.some.inj hi]
      exact halted_headOk hsize
    · rename_i hvi
      rw [push_heads _ 1 hv, if_neg hvi] at hi
      exact (hheads i x hvi hi).mono he
  -- the trees of all ways to the bottom are compared; none of them changes the stack
  have hclose : ∀ r' : Run σ, r'.Fair D cs ∧ r'.stack = r.stack.push v (some lookahead) 1 →
      Run.Ok D cs { r' with stack := r'.stack.halt v } := by
    rintro r' ⟨hr', hstack⟩
    refine ⟨hr'.withStack _, ?_⟩
    show (r'.stack.halt v).Sound D cs
    rw [hstack]
    exact hhalt
  refine hclose _ (List.foldlRecOn (motive := fun (r' : Run σ) => r'.Fair D cs ∧
    r'.stack = r.stack.push v (some lookahead) 1) _ _ ⟨hr.withStack _, rfl⟩ ?_)
  rintro r' ⟨hr', hstack⟩ w hw
  obtain ⟨hway, hbottom⟩ := popAll_way hw
  obtain ⟨hlt', hsound, u, hu, hbehind⟩ := hway.covers hn' hsize
  rw [(hn' _ hlt').bottom hbottom] at hbehind
  split
  · exact ⟨⟨hr'.finished, hr'.last⟩, hstack⟩
  · rename_i t heq
    have ht : D.Whole cs t := by
      split at heq
      · exact absurd heq (by simp)
      · rename_i t before hrear
        rw [← Option.some.inj heq]
        exact whole_of_rear hbehind.1 hu hsound hrear
          (hripe' w hway t (by rw [Tree.rear, hrear]; rfl))
    refine ⟨⟨fun t' ht' => ?_, hr'.last⟩, hstack⟩
    rw [← Option.some.inj ht']
    split
    · rename_i old hold
      split
      · exact ht
      · exact hr'.finished old hold
    · exact ht

/-! ## Missing tokens -/

section

/-- A new head on which a token was put in, and all rules were completed behind it. -/
def inserted (lang : Language σ) [DecidableEq σ] (s : Stack σ) (h : Head σ) (lookahead : Tree σ)
    (symbol : Nat) : Stack σ × Bool :=
  lang.completeAll
    ((s.withHead { h with landmarks := none }).push s.heads.size
      (some { Tree.leaf lang.table.grammar (.symbol symbol) {} {} (s.top h).state with
        missing := true })
      (lang.table.next (s.top h).state symbol))
    s.heads.size (lang.narrowing lookahead)

/-- A token after which no rule is completed for the next one is not put in. -/
def isHopeless (lang : Language σ) (state next : Nat) (lookahead : Tree σ) : Bool :=
  next = 0 || next == state ||
    !(match lookahead.kind with
      | .symbol n =>
        match lang.table.action? next n with
        | some (.reduce ..) => true
        | _ => false
      | _ => false)

-- the fuel of it is a large number, which is not to be counted down
attribute [local irreducible] completeAll

theorem insertMissing_none [DecidableEq σ] {v : Nat} (hv : s.heads[v]? = none) (lookahead : Tree σ)
    (symbols : List Nat) : lang.insertMissing s v lookahead symbols = none := by
  cases symbols with
  | nil => rfl
  | cons symbol symbols =>
    conv => lhs; whnf
    rw [hv]

/-- What is tried for one symbol after the other. -/
theorem insertMissing_cons (lang : Language σ) [DecidableEq σ] {v : Nat} {h : Head σ}
    (hv : s.heads[v]? = some h) (lookahead : Tree σ) (symbol : Nat) (symbols : List Nat) :
    ∃ skip : Bool,
      (skip = false → lang.table.next (s.top h).state symbol ≠ 0 ∧
        lang.table.next (s.top h).state symbol ≠ (s.top h).state) ∧
      lang.insertMissing s v lookahead (symbol :: symbols) =
        if skip then lang.insertMissing s v lookahead symbols
        else if (lang.inserted s h lookahead symbol).2 then
          some (lang.inserted s h lookahead symbol).1
        else lang.insertMissing (lang.inserted s h lookahead symbol).1 v lookahead symbols := by
  refine ⟨lang.isHopeless (s.top h).state (lang.table.next (s.top h).state symbol) lookahead,
    fun hskip => ?_, ?_⟩
  · simp only [isHopeless, Bool.or_eq_false_iff, decide_eq_false_iff_not, beq_eq_false_iff_ne] at hskip
    exact hskip.1
  · conv => lhs; whnf
    rw [hv]
    rfl

end

theorem covers_missing (n state : Nat) : Tree.Covers
    ({ Tree.leaf lang.table.grammar (.symbol n) {} {} state with missing := true } : Tree σ) [] :=
  (Tree.covers_leaf lang.table.grammar (.symbol n) [] [] state).congr rfl rfl rfl

theorem inserted_grows [DecidableEq σ] {v symbol : Nat} {x : Head σ} (lookahead : Tree σ)
    (hs : s.Sound D cs) (hx : s.heads[v]? = some x) (ha : x.status = .active)
    (hsymbol : symbol ∈ lang.table.terminals)
    (hzero : lang.table.next (s.top x).state symbol ≠ 0)
    (hsame : lang.table.next (s.top x).state symbol ≠ (s.top x).state) :
    Grows D cs s.heads.size (s.top x).place s (lang.inserted s x lookahead symbol).1 := by
  have hhead : s.HeadOk D { x with landmarks := none } := (hs.heads hx).congr rfl rfl
  have hself : (s.withHead { x with landmarks := none }).heads[s.heads.size]? =
      some { x with landmarks := none } := (getElem?_withHead ..).trans (if_pos rfl)
  obtain ⟨hs₁, he₁, hv₁, hk₁⟩ := push_sound (lang.table.next (s.top x).state symbol)
    (withHead_sound hs hhead) hself ha
    (show D.Between _ (some _) (s.top x).place from
      ⟨D.missing_sound, [], covers_missing symbol (s.top x).state, .refl _⟩)
    (D.missing_joins hsymbol hzero hsame)
  have hgrows := grows_of_withHead hs₁ ((extends_withHeads s _).trans he₁) hv₁ hk₁
  have hsize : ((s.withHead { x with landmarks := none }).push s.heads.size
      (some { Tree.leaf lang.table.grammar (.symbol symbol) {} {} (s.top x).state with
        missing := true }) (lang.table.next (s.top x).state symbol)).heads.size =
      s.heads.size + 1 := by
    rw [push_eq hself]
    simp [grown, withHead]
  obtain ⟨y, hy, hya, hyp, -⟩ := hv₁
  have hc := completeAll_spec (lang.narrowing lookahead) hs₁ hy hya fun _ => hsize
  rw [hsize, hyp] at hc
  exact ⟨hc.sound, hgrows.later.trans hc.later, hgrows.keeps.trans hc.keeps,
    hc.keeps.size hgrows.size, fun i z hi hz => hc.holds i z (by omega) hz⟩

/-- Putting in a token leads to new heads at the same place. -/
theorem insertMissing_grows [DecidableEq σ] {v : Nat} {lookahead : Tree σ} {symbols : List Nat}
    (hs : s.Sound D cs) (hv : s.Holds (· = v) place)
    (hsymbols : ∀ n ∈ symbols, n ∈ lang.table.terminals)
    (h : lang.insertMissing s v lookahead symbols = some s') :
    Grows D cs s.heads.size place s s' := by
  induction symbols generalizing s with
  | nil => exact absurd (show none = some s' from h) (by simp)
  | cons symbol symbols ih =>
    have hrest : ∀ n ∈ symbols, n ∈ lang.table.terminals := fun n hn =>
      hsymbols n (List.mem_cons_of_mem symbol hn)
    cases hx : s.heads[v]? with
    | none =>
      rw [insertMissing_none hx] at h
      exact absurd h (by simp)
    | some x =>
      obtain ⟨skip, hskip, heq⟩ := insertMissing_cons lang hx lookahead symbol symbols
      obtain ⟨ha, rfl⟩ := hv v x rfl hx
      rw [heq] at h
      cases skip with
      | true => exact ih hs hv hrest h
      | false =>
        obtain ⟨hzero, hsame⟩ := hskip rfl
        have hgrows := inserted_grows lookahead hs hx ha
          (hsymbols symbol (List.mem_cons_self ..)) hzero hsame
        rw [if_neg (by simp)] at h
        split at h
        · exact Option.some.inj h ▸ hgrows
        · exact hgrows.trans (ih hgrows.sound (hgrows.holds_of hs hv) hrest h)

/-! ## Going back -/

/-- Heads are added, and those that there are are kept. -/
structure Carries (D : Discipline lang) (cs : List Char) (s s' : Stack σ) : Prop where
  sound : s'.Sound D cs
  later : s.Extends D s'
  keeps : Keeps s.heads.size s s'

theorem Carries.refl (hs : s.Sound D cs) : Carries D cs s s := ⟨hs, .refl s, .refl _ s⟩

theorem Carries.trans (h : Carries D cs s s') (h' : Carries D cs s' s'') : Carries D cs s s'' :=
  ⟨h'.sound, h.later.trans h'.later, h.keeps.trans (h'.keeps.of_le (h.keeps.size (Nat.le_refl _)))⟩

/-- A head that is followed still is, at the same place. -/
theorem Carries.holds {v : Nat} (h : Carries D cs s s') (hs : s.Sound D cs) (hv : v < s.heads.size)
    (hh : s.Holds (· = v) place) : s'.Holds (· = v) place := by
  intro i y hi hy
  subst hi
  obtain ⟨x, hx⟩ := exists_head hv
  obtain ⟨z, hz, hn, hst⟩ := h.keeps i hv x hx
  obtain rfl : z = y := Option.some.inj (hz.symm.trans hy)
  exact hh.carry hs h.later rfl hx hn hst

/-- Taking an error off the top of a head leaves it in its state, in front of the parts of the
error. -/
theorem popError_spec {v : Nat} {h : Head σ} (hs : s.Sound D cs) (hv : s.heads[v]? = some h)
    (ha : h.status = .active) :
    (popError s v).1.Sound D cs ∧ s.Extends D (popError s v).1 ∧
      (∀ i, v ≠ i → (popError s v).1.heads[i]? = s.heads[i]?) ∧
      (∀ t ∈ (popError s v).2, D.sound t) ∧
      ∃ q u, (popError s v).1.Standing v q (s.top h).state ∧ Tree.CoversAll (popError s v).2 u ∧
        q.Behind u (s.top h).place := by
  have hnone : s.Sound D cs ∧ s.Extends D s ∧ (∀ i, v ≠ i → s.heads[i]? = s.heads[i]?) ∧
      (∀ t ∈ ([] : List (Tree σ)), D.sound t) ∧
      ∃ q u, s.Standing v q (s.top h).state ∧ Tree.CoversAll ([] : List (Tree σ)) u ∧
        q.Behind u (s.top h).place :=
    ⟨hs, .refl s, fun _ _ => rfl, by simp, (s.top h).place, [], ⟨h, hv, ha, rfl, rfl⟩,
      Tree.coversAll_nil.mpr rfl, .refl _⟩
  unfold popError
  rw [hv]
  simp only
  split
  · rename_i below t hfound
    obtain ⟨l, hl, heq⟩ := List.exists_of_findSome?_eq_some hfound
    obtain ⟨below', tree⟩ := l
    cases tree with
    | none => exact absurd heq (by simp)
    | some t' =>
      simp only [Option.ite_none_right_eq_some, Option.some.injEq, Prod.mk.injEq] at heq
      obtain ⟨hkind, rfl, rfl⟩ := heq
      have hok := hs.heads hv
      have hgood := hok.good (by rw [ha]; rfl)
      obtain ⟨hbelow, hjoins⟩ := hgood.below hl
      obtain ⟨-, hsound, u, hu, hbehind⟩ := (hs.nodes _ hok.lt).fits _ hl
      have hextra := D.joins_error hjoins hkind
      have hstate := D.joins_extra hjoins hextra
      refine ⟨modifyHead_sound hs v _ fun x hx => ⟨hbelow.lt, fun _ => hbelow, by simp⟩,
        extends_withHeads s _, fun i hi => by rw [getElem?_modifyHead, if_neg hi],
        fun c hc => D.children_sound hsound hc, (s.node below').place, u,
        ⟨{ h with node := below', status := .active }, ?_, rfl, rfl, hstate⟩,
        D.sound_error hsound hkind hextra u hu, hbehind⟩
      rw [getElem?_modifyHead, if_pos rfl, hv]
      rfl
  · exact hnone

/-- Wrapping trees into an error, extras at their end apart. -/
theorem wrapError_sound {v goal : Nat} {q : Place} {ts : List (Tree σ)} {w : List Char}
    (hs : s.Sound D cs) (hv : s.Standing v q goal) (hts : ∀ t ∈ ts, D.sound t)
    (hw : Tree.CoversAll ts w) (hq : q.Behind w place) :
    let s' := pushAll
      (if (splitTrailing ts).1.isEmpty then s
        else s.push v (some { Tree.node lang.table.grammar .error (splitTrailing ts).1 [] with
          extra := true }) goal) v (splitTrailing ts).2 goal
    s'.Sound D cs ∧ s.Extends D s' ∧ ∀ i, v ≠ i → s'.heads[i]? = s.heads[i]? := by
  intro s'
  have hsplit := splitTrailing_append ts
  obtain ⟨u, u', rfl, hu, hu'⟩ := Tree.coversAll_append_inv (hsplit ▸ hw)
  obtain ⟨m, hm, hm'⟩ := hq.between
  have htrailing : ∀ t ∈ (splitTrailing ts).2, D.sound t ∧ t.extra = true := fun t ht =>
    ⟨hts t (hsplit ▸ List.mem_append_right _ ht), extra_of_mem_trailing ht⟩
  by_cases hown : (splitTrailing ts).1.isEmpty
  · rw [List.isEmpty_iff.mp hown] at hu
    rw [Tree.coversAll_nil.mp hu] at hm
    obtain rfl := hm.unique (.refl q)
    obtain ⟨hs₁, he₁, -, hk₁⟩ := pushAll_sound goal hs hv hu' hm' htrailing
    simp only [s', if_pos hown]
    exact ⟨hs₁, he₁, hk₁⟩
  · obtain ⟨h, hh, ha, rfl, rfl⟩ := hv
    have hsound : D.sound { Tree.node lang.table.grammar .error (splitTrailing ts).1 [] with
        extra := true } := D.error_sound fun t ht => hts t (hsplit ▸ List.mem_append_left _ ht)
    obtain ⟨hs₁, he₁, hv₁, hk₁⟩ := push_sound (s.top h).state hs hh ha
      (show D.Between _ (some _) m from
        ⟨hsound, u, (Tree.covers_node _ _ [] hu).congr rfl rfl rfl, hm⟩) (D.extra_joins hsound rfl)
    obtain ⟨hs₂, he₂, -, hk₂⟩ := pushAll_sound _ hs₁ hv₁ hu' hm' htrailing
    simp only [s', if_neg hown]
    exact ⟨hs₂, he₁.trans he₂, fun i hi => (hk₂ i hi).trans (hk₁ i hi)⟩

/-- A new head that has gone its own way. -/
theorem carries_of_withHead {h : Head σ} (hs : s'.Sound D cs) (he : (s.withHead h).Extends D s')
    (hk : ∀ i, s.heads.size ≠ i → s'.heads[i]? = (s.withHead h).heads[i]?) : Carries D cs s s' := by
  refine ⟨hs, (extends_withHeads s _).trans he, fun i hi y hy => ⟨y, ?_, rfl, rfl⟩⟩
  rw [hk i (Nat.ne_of_gt hi), getElem?_withHead, if_neg (Nat.ne_of_lt hi), hy]

/-- Going back to a state further down. -/
theorem goBack_carries (v depth goal : Nat) (hs : s.Sound D cs) (hv : s.Holds (· = v) place) :
    Carries D cs s (lang.goBack s v depth goal).1 := by
  unfold goBack
  split
  · exact .refl hs
  · rename_i h hh
    obtain ⟨ha, -⟩ := hv v h rfl hh
    have hgood := (hs.heads hh).good (by rw [ha]; rfl)
    refine List.foldlRecOn (motive := fun (acc : Stack σ × Bool) => Carries D cs s acc.1) _ _
      (.refl hs) fun ⟨s', did⟩ hs' ⟨n, ways⟩ hg => ?_
    obtain ⟨hne, hfound⟩ := found_of_grouped hs hgood hg
    obtain ⟨ts, others, rfl⟩ := List.exists_cons_of_ne_nil hne
    obtain ⟨hn, hsound, ⟨text, hcovers, hbehind⟩, -⟩ :=
      (hfound ts (List.mem_cons_self ..)).mono hs'.later
    have hhead : s'.HeadOk D { h with node := n, status := .active, landmarks := none } :=
      ⟨hn.lt, fun _ => hn, by simp⟩
    have hnew := withHead_sound hs'.sound hhead
    have hself : (s'.withHead { h with node := n, status := .active, landmarks := none }).heads[
        s'.heads.size]? = some { h with node := n, status := .active, landmarks := none } :=
      (getElem?_withHead ..).trans (if_pos rfl)
    refine hs'.trans ?_
    simp only
    split
    · refine carries_of_withHead (halt_sound hnew _) (extends_withHeads _ _) fun i hi => ?_
      rw [halt, getElem?_modifyHead, if_neg hi]
      rfl
    · rename_i hgoal
      obtain rfl := Decidable.not_not.mp hgoal
      obtain ⟨hs₁, he₁, hk₁, hfront, q, u, hv₁, hu, hq⟩ := popError_spec hnew hself rfl
      have hq' : q.Behind (u ++ text) (s.top h).place := hq.trans hbehind
      obtain ⟨hs₂, he₂, hk₂⟩ := wrapError_sound hs₁ hv₁
        (fun t ht => (List.mem_append.mp ht).elim (hfront t) (hsound t))
        (Tree.coversAll_append hu hcovers) hq'
      exact carries_of_withHead hs₂ (he₁.trans he₂) fun i hi => (hk₂ i hi).trans (hk₁ i hi)

/-- Trying to go back. -/
theorem tryLandmarks_carries [DecidableEq σ] {r : Run σ} {v before cost weight : Nat}
    {lookahead : Tree σ} {ls : List Landmark} (hr : r.Ok D cs) (hv : v < r.stack.heads.size)
    (hh : r.stack.Holds (· = v) place) :
    let r' := (lang.tryLandmarks r v before lookahead cost weight ls).1
    r'.Fair D cs ∧ Carries D cs r.stack r'.stack := by
  induction ls generalizing r with
  | nil => exact ⟨hr.fair, .refl hr.stack⟩
  | cons l ls ih =>
    rw [tryLandmarks]
    generalize (if 0 < weight then l.depth + 1 else l.depth) = depth
    have hgo := goBack_carries v depth l.state hr.stack hh
    split
    · exact ⟨hr.fair, .refl hr.stack⟩
    · simp only
      split
      · exact ih hr hv hh
      · split
        · exact ⟨hr.fair, .refl hr.stack⟩
        · refine (fun hasAction => ?_ : ∀ hasAction : Bool,
            let r' := (if hasAction then _ else _ : Run σ × Bool).1
            r'.Fair D cs ∧ Carries D cs r.stack r'.stack) _
          cases hasAction with
          | false => exact ih hr hv hh
          | true =>
            simp only [if_true]
            split
            · exact ⟨hr.fair.withStack _, hgo⟩
            · obtain ⟨hf, hc⟩ := ih (r := { r with stack := _ }) (hr.withStack hgo.sound)
                (Nat.lt_of_lt_of_le hv (hgo.keeps.size (Nat.le_refl _))) (hgo.holds hr.stack hv hh)
              exact ⟨hf, hgo.trans hc⟩

/-- Dropping heads that are not followed. -/
theorem dropInactive_spec {n : Nat} (hs : s.Sound D cs) (hn : n ≤ s.heads.size) :
    (dropInactive s n).Sound D cs ∧ s.Extends D (dropInactive s n) ∧ Keeps n s (dropInactive s n) := by
  have hextract : ∀ {x : Head σ} {i j : Nat}, x ∈ s.heads.extract i j → s.HeadOk D x := by
    intro x i j hx
    obtain ⟨k, hk⟩ := Array.mem_iff_getElem?.mp hx
    rw [Array.getElem?_extract] at hk
    split at hk
    · exact hs.heads hk
    · exact absurd hk (by simp)
  refine ⟨sound_withHeads hs fun {i x} hx => ?_, extends_withHeads s _, fun i hi x hx =>
    ⟨x, ?_, rfl, rfl⟩⟩
  · rcases Array.mem_append.mp (Array.mem_of_getElem? hx) with h | h
    · exact hextract h
    · exact hextract (Array.mem_filter.mp h).1
  · show (s.heads.extract 0 n ++ _)[i]? = _
    rw [Array.getElem?_append_left (by simp; omega), Array.getElem?_extract, if_pos (by omega),
      Nat.zero_add]
    exact hx

/-! ## Skipping a token -/

theorem remember_sound {v : Nat} (hs : s.Sound D cs) (t : Tree σ) : (remember s v t).Sound D cs := by
  unfold remember
  split
  · exact modifyHead_sound hs v _ fun x hx => (hs.heads hx).congr rfl rfl
  · exact hs

/-- A token that is to be taken or skipped fits at a place. -/
structure Awaits (D : Discipline lang) (place : Place) (t : Tree σ) : Prop where
  token : D.token t
  fits : t.Fits place

theorem Awaits.sound {t : Tree σ} (h : Awaits D place t) : D.sound t := by
  have hkind : t.extra = true → t.kind ≠ .error := by
    intro hx hk
    rw [(D.token_extra h.token).mp hx] at hk
    exact absurd hk (by simp)
  cases t
  exact D.token_sound h.token hkind

/-- Skips a token that is marked as an extra if it may be one. -/
def skipMarked (lang : Language σ) (s : Stack σ) (v : Nat) (t : Tree σ) (weight : Nat) : Stack σ :=
  match s.heads[v]? with
  | none => s
  | some h =>
    let skipped := Tree.node lang.table.grammar .skipped [t] []
    let (s, skipped) :=
      if 0 < weight then
        match Stack.grouped (s.popCount h 1) with
        | (node, ways) :: _ =>
          (s.modifyHead v fun h => { h with node, status := .active },
            Tree.node lang.table.grammar .skipped (ways.headD [] ++ [skipped]) [])
        | [] => (s, skipped)
      else (s, skipped)
    remember (s.push v (some skipped) 0) v t

theorem skipToken_eq (lang : Language σ) (s : Stack σ) (v : Nat) (t : Tree σ) (weight : Nat) :
    ∃ b : Bool, (b = true → t.kind ≠ .error) ∧
      lang.skipToken s v t weight =
        lang.skipMarked s v (if b then { t with extra := true } else t) weight := by
  refine ⟨_, fun h hk => ?_, rfl⟩
  rw [hk] at h
  exact absurd h (by simp)

/-- Skipping a tree puts it, with what was read since the last error, on top of the head. -/
theorem skipMarked_sound {v weight : Nat} {t : Tree σ} {text : List Char} {q : Place}
    (hs : s.Sound D cs) (hv : s.Holds (· = v) place) (ht : D.sound t) (hc : t.Covers text)
    (hq : place.Behind text q) : (lang.skipMarked s v t weight).Sound D cs := by
  have hskipped : D.sound (Tree.node lang.table.grammar .skipped [t] []) :=
    D.skipped_sound fun u hu => List.mem_singleton.mp hu ▸ ht
  have hcovers : (Tree.node lang.table.grammar .skipped [t] []).Covers text :=
    Tree.covers_node _ _ _ (Tree.coversAll_cons.mpr ⟨text, [], by simp, hc,
      Tree.coversAll_nil.mpr rfl⟩)
  unfold skipMarked
  split
  · exact hs
  · rename_i h hh
    obtain ⟨ha, rfl⟩ := hv v h rfl hh
    have hplain : ((s.push v (some (Tree.node lang.table.grammar .skipped [t] [])) 0)).Sound D cs :=
      (push_sound 0 hs hh ha (show D.Between _ (some _) q from ⟨hskipped, text, hcovers, hq⟩)
        D.skipped_joins).1
    by_cases hw : 0 < weight
    · simp only [if_pos hw]
      split
      · rename_i n ways rest hgroups
        have hgood := (hs.heads hh).good (by rw [ha]; rfl)
        have hmem : (n, ways) ∈ grouped (s.popCount h 1) := hgroups ▸ List.mem_cons_self ..
        obtain ⟨hne, hfound⟩ := found_of_grouped hs hgood hmem
        obtain ⟨ts, others, rfl⟩ := List.exists_cons_of_ne_nil hne
        obtain ⟨hn, hsound, ⟨u, hu, hbehind⟩, -⟩ := hfound ts (List.mem_cons_self ..)
        have hmodified := modifyHead_sound hs v
          (fun h => { h with node := n, status := .active }) fun x _ =>
            ⟨hn.lt, fun _ => hn, by simp⟩
        have hself : (s.modifyHead v fun h => { h with node := n, status := .active }).heads[v]? =
            some { h with node := n, status := .active } := by
          rw [getElem?_modifyHead, if_pos rfl, hh]
          rfl
        refine remember_sound (push_sound 0 hmodified hself rfl (show D.Between _ (some _) q from
          ⟨D.skipped_sound fun x hx => ?_, u ++ text, Tree.covers_node _ _ _ ?_, hbehind.trans hq⟩)
          D.skipped_joins).1 t
        · rcases List.mem_append.mp hx with hx | hx
          · exact hsound x hx
          · exact List.mem_singleton.mp hx ▸ hskipped
        · exact Tree.coversAll_append hu (Tree.coversAll_cons.mpr ⟨text, [], by simp, hcovers,
            Tree.coversAll_nil.mpr rfl⟩)
      · exact remember_sound hplain t
    · simp only [if_neg hw]
      exact remember_sound hplain t

theorem skipToken_sound {v weight : Nat} {lookahead : Tree σ} (hs : s.Sound D cs)
    (hv : s.Holds (· = v) place) (hl : Awaits D place lookahead) :
    (lang.skipToken s v lookahead weight).Sound D cs := by
  obtain ⟨text, q, hc, hq⟩ := hl.fits
  obtain ⟨b, hb, heq⟩ := skipToken_eq lang s v lookahead weight
  rw [heq]
  cases b with
  | false => exact skipMarked_sound hs hv hl.sound hc hq
  | true =>
    exact skipMarked_sound hs hv (D.token_sound hl.token fun _ => hb rfl) (hc.congr rfl rfl rfl) hq

/-! ## Going on after an error -/

theorem lowered_heads (s : Stack σ) (i : Nat) :
    s.lowered.heads[i]? = s.heads[i]?.map fun h =>
      { h with weightAtError := min h.weightAtError (s.top h).weight } :=
  Array.getElem?_map

theorem lowered_carries (hs : s.Sound D cs) : Carries D cs s s.lowered := by
  refine ⟨sound_withHeads hs fun {i x} hx => ?_, extends_withHeads s _, fun i _ x hx =>
    ⟨{ x with weightAtError := min x.weightAtError (s.top x).weight }, ?_, rfl, rfl⟩⟩
  · replace hx := (lowered_heads s i).symm.trans hx
    obtain ⟨y, hy, rfl⟩ := Option.map_eq_some_iff.mp hx
    exact (hs.heads hy).congr rfl rfl
  · rw [lowered_heads, hx]
    rfl

/-- The end of the text after an error: what is there becomes the tree of the text. -/
theorem acceptError_ok {r : Run σ} {v : Nat} {lookahead : Tree σ} {h : Head σ} (hr : r.Ok D cs)
    (hv : r.stack.heads[v]? = some h) (hl : Awaits D (r.stack.top h).place lookahead)
    (hend : lookahead.kind = .symbol lang.table.grammar.endSymbol) :
    (lang.accept
      { r with
        stack := r.stack.push v (some (Tree.node lang.table.grammar .error [] [])) 1 }
      v lookahead).Ok D cs := by
  have hlt := (hr.stack.heads hv).lt
  have hsound : D.sound (Tree.node lang.table.grammar .error [] []) := by
    have hmark : ∀ t : Tree σ, t.extra = false → { t with extra := false } = t := by
      rintro ⟨⟩ rfl
      rfl
    rw [← hmark _ (Tree.node_extra ..)]
    exact D.error_sound (by simp)
  have hcovers : (Tree.node lang.table.grammar .error [] [] : Tree σ).Covers [] :=
    Tree.covers_node _ _ _ (Tree.coversAll_nil.mpr rfl)
  obtain ⟨hn, he, hplace, -, hsize, -⟩ := push_nodes 1 hr.stack.nodes hv hlt
    (show D.Between _ (some _) (r.stack.top h).place from ⟨hsound, [], hcovers, .refl _⟩)
  have hself := (push_heads (some (Tree.node lang.table.grammar .error [] [])) 1 hv v).trans
    (if_pos rfl)
  refine accept_ok (hr.fair.withStack _) hn hself (fun i x hi hx => ?_) hsize ?_ hl.sound
    ((D.token_extra hl.token).mpr hend) ?_
  · replace hx := (push_heads _ 1 hv i).symm.trans hx
    rw [if_neg hi] at hx
    exact (hr.stack.heads hx).mono he
  · show (r.stack.push v (some (Tree.node lang.table.grammar .error [] [])) 1).Ripe
      lang.table.grammar r.stack.nodes.size
    rw [push_eq hv]
    refine ripe_of_single (m := h.node) (t := Tree.node lang.table.grammar .error [] []) ?_
      (fun hx => absurd hx (by simp)) fun _ => ⟨Tree.inner_node _ _ _ _, .inl (Tree.node_kind ..)⟩
    rw [node_grown_self, above_links]
  · show lookahead.Fits ((r.stack.push v (some (Tree.node lang.table.grammar .error [] [])) 1).node
      r.stack.nodes.size).place
    rw [hplace]
    exact hl.fits

/-- What is done with head `v` after it was tried to go back from it. -/
def goOn (lang : Language σ) [DecidableEq σ] (v before cost weight : Nat) (lookahead : Tree σ)
    (r : Run σ) (went : Bool) : Run σ :=
  let r := { r with stack := dropInactive r.stack before }
  if lookahead.kind = .symbol lang.table.grammar.endSymbol then
    let s := r.stack.push v (some (Tree.node lang.table.grammar .error [] [])) 1
    lang.accept { r with stack := s } v lookahead
  else if went && (maxHeads < r.stack.heads.size || lookahead.changesMemory) then
    { r with stack := r.stack.halt v }
  else
    let newCost := cost + costs.skippedTree + lookahead.total.bytes * costs.skippedByte +
      lookahead.total.rows * costs.skippedLine
    if betterExists r v newCost then { r with stack := r.stack.halt v }
    else { r with stack := lang.skipToken r.stack v lookahead weight }

theorem recover_eq (lang : Language σ) [DecidableEq σ] (r : Run σ) (v : Nat) (lookahead : Tree σ) :
    lang.recover r v lookahead =
      match r.stack.lowered.heads[v]? with
      | none => { r with stack := r.stack.lowered }
      | some h =>
        let tried := if lookahead.kind = .error then ({ r with stack := r.stack.lowered }, false)
          else lang.tryLandmarks { r with stack := r.stack.lowered } v
            r.stack.lowered.heads.size lookahead (r.stack.lowered.costOf h)
            (r.stack.lowered.weightSinceError h) (h.landmarks.getD [])
        lang.goOn v r.stack.lowered.heads.size (r.stack.lowered.costOf h)
          (r.stack.lowered.weightSinceError h) lookahead tried.1 tried.2 := rfl

theorem goOn_ok [DecidableEq σ] {r : Run σ} {v before cost weight : Nat} {lookahead : Tree σ}
    {went : Bool} (hr : r.Ok D cs) (hlt : v < before) (hsize : before ≤ r.stack.heads.size)
    (hv : r.stack.Holds (· = v) place) (hl : Awaits D place lookahead) :
    (lang.goOn v before cost weight lookahead r went).Ok D cs := by
  obtain ⟨hs, he, hk⟩ := dropInactive_spec hr.stack hsize
  have hholds : (dropInactive r.stack before).Holds (· = v) place := by
    intro i y hi hy
    subst hi
    obtain ⟨x, hx⟩ := exists_head (Nat.lt_of_lt_of_le hlt hsize)
    obtain ⟨z, hz, hn, hst⟩ := hk i hlt x hx
    obtain rfl : z = y := Option.some.inj (hz.symm.trans hy)
    exact hv.carry hr.stack he rfl hx hn hst
  have hok : Run.Ok D cs { r with stack := dropInactive r.stack before } := hr.withStack hs
  unfold goOn
  simp only
  split
  · rename_i hend
    obtain ⟨x, hx⟩ := exists_head (Nat.lt_of_lt_of_le hlt (hk.size hsize))
    obtain ⟨-, hp⟩ := hholds v x rfl hx
    exact acceptError_ok (r := { r with stack := dropInactive r.stack before }) hok hx (hp ▸ hl) hend
  · split
    · exact hok.withStack (halt_sound hs v)
    · split
      · exact hok.withStack (halt_sound hs v)
      · exact hok.withStack (skipToken_sound hs hholds hl)

/-- Going on after an error. -/
theorem recover_ok [DecidableEq σ] {r : Run σ} {v : Nat} {lookahead : Tree σ} (hr : r.Ok D cs)
    (hv : r.stack.Holds (· = v) place) (hl : Awaits D place lookahead) :
    (lang.recover r v lookahead).Ok D cs := by
  have hlow := lowered_carries hr.stack
  rw [recover_eq]
  split
  · exact hr.withStack hlow.sound
  · rename_i h hh
    have hlt : v < r.stack.lowered.heads.size := lt_of_head hh
    have hv' : r.stack.lowered.Holds (· = v) place :=
      hlow.holds hr.stack (by simpa [lowered] using hlt) hv
    have hlowered : Run.Ok D cs { r with stack := r.stack.lowered } := hr.withStack hlow.sound
    simp only
    split
    · exact goOn_ok hlowered hlt (Nat.le_refl _) hv' hl
    · obtain ⟨hfair, hcarries⟩ := tryLandmarks_carries hlowered hlt hv'
      exact goOn_ok ⟨hfair, hcarries.sound⟩ hlt (hcarries.keeps.size (Nat.le_refl _))
        (hcarries.holds hlow.sound hlt hv') hl

/-! ## Marking errors -/

/-- Marking an error on top of a head. -/
theorem push_mark {R : Nat → Prop} {w : Nat} (hs : s.Sound D cs) (hR : s.Holds R place) (hw : R w) :
    (s.push w none 0).Sound D cs ∧ (s.push w none 0).Holds R place := by
  cases hh : s.heads[w]? with
  | none =>
    rw [show s.push w none 0 = s by rw [push, hh]]
    exact ⟨hs, hR⟩
  | some h =>
    obtain ⟨ha, hp⟩ := hR w h hw hh
    obtain ⟨hs', he, ⟨x, hx, hxa, hxp, -⟩, hk⟩ := push_sound 0 hs hh ha
      (show D.Between _ none (s.top h).place from rfl) D.mark_joins
    refine ⟨hs', fun i y hi hy => ?_⟩
    by_cases hwi : w = i
    · subst hwi
      obtain rfl : x = y := Option.some.inj (hx.symm.trans hy)
      exact ⟨hxa, hxp.trans hp⟩
    · rw [hk i hwi] at hy
      exact hR.carry hs he hi hy rfl rfl

/-- Marking errors, and putting in a token. -/
theorem markErrors_spec [DecidableEq σ] (v before count : Nat) (lookahead : Tree σ) (fuel w : Nat)
    (inserted : Bool) (hs : s.Sound D cs)
    (hR : s.Holds (fun i => i = v ∨ before ≤ i ∧ i < count) place) (hw : w = v ∨ before ≤ w) :
    (lang.markErrors v before count lookahead fuel w inserted s).Sound D cs ∧
      (lang.markErrors v before count lookahead fuel w inserted s).Holds
        (fun i => i = v ∨ before ≤ i ∧ i < count) place := by
  induction fuel generalizing w inserted s with
  | zero => exact ⟨hs, hR⟩
  | succ fuel ih =>
    rw [markErrors]
    split
    · exact ⟨hs, hR⟩
    · rename_i hcount
      have hwR : w = v ∨ before ≤ w ∧ w < count := by omega
      have hnext : (if w = v then before else w + 1) = v ∨
          before ≤ (if w = v then before else w + 1) := by
        split <;> omega
      -- both with and without a token that was put in
      have hmark : ∀ {s' : Stack σ} (inserted : Bool), s'.Sound D cs →
          s'.Holds (fun i => i = v ∨ before ≤ i ∧ i < count) place →
          (lang.markErrors v before count lookahead fuel (if w = v then before else w + 1) inserted
            (s'.push w none 0)).Sound D cs ∧
          (lang.markErrors v before count lookahead fuel (if w = v then before else w + 1) inserted
            (s'.push w none 0)).Holds (fun i => i = v ∨ before ≤ i ∧ i < count) place := by
        intro s' inserted hs' hR'
        obtain ⟨h₁, h₂⟩ := push_mark hs' hR' hwR
        exact ih _ inserted h₁ h₂ hnext
      cases inserted with
      | true => exact hmark true hs hR
      | false =>
        cases hinsert : lang.insertMissing s w lookahead lang.table.terminals with
        | some s' =>
          have hgrows := insertMissing_grows (v := w) hs
            (fun i x hi hx => hR i x (hi ▸ hwR) hx) (fun n hn => hn) hinsert
          exact hmark true hgrows.sound (hgrows.holds_of hs hR)
        | none => exact hmark false hs hR

/-- Merging the heads that were marked. -/
theorem mergeMarked_spec [DecidableEq σ] {v before : Nat} (n : Nat) (hs : s.Sound D cs)
    (hv : v < before) (hh : s.Holds (· = v) place) :
    let s' := (List.range n).foldl (fun s _ => (s.merge? lang.initial v before).getD s) s
    s'.Sound D cs ∧ s'.Holds (· = v) place := by
  refine List.foldlRecOn (motive := fun (s' : Stack σ) => s'.Sound D cs ∧ s'.Holds (· = v) place) _ _
    ⟨hs, hh⟩ fun s' ⟨hs', hh'⟩ _ _ => ?_
  cases hm : s'.merge? lang.initial v before with
  | none => exact ⟨hs', hh'⟩
  | some merged =>
    obtain ⟨hs₁, he₁, -, hfrom⟩ := merge?_spec lang.initial hs' hv hm
    refine ⟨hs₁, fun i x hi hx => ?_⟩
    obtain ⟨y, hy, hn, hst⟩ := hfrom i x hx
    rw [if_pos (hi ▸ hv)] at hy
    exact hh'.carry hs' he₁ hi hy hn hst

/-- Starting to recover from an error. -/
theorem handleError_ok [DecidableEq σ] {r : Run σ} {v : Nat} {lookahead : Tree σ} (hr : r.Ok D cs)
    (hv : r.stack.Holds (· = v) place) (hlt : v < r.stack.heads.size)
    (hl : Awaits D place lookahead) : (lang.handleError r v lookahead).Ok D cs := by
  obtain ⟨h, hh⟩ := exists_head hlt
  obtain ⟨ha, rfl⟩ := hv v h rfl hh
  have hc := completeAll_spec none hr.stack hh ha (by simp)
  obtain ⟨hs₁, hR₁⟩ := markErrors_spec v r.stack.heads.size
    (lang.completeAll r.stack v none).1.heads.size lookahead
    ((lang.completeAll r.stack v none).1.heads.size + 2) v false hc.sound
    (fun i x hi hx => hc.holds i x (by omega) hx) (.inl rfl)
  obtain ⟨hs₂, hh₂⟩ := mergeMarked_spec
    ((lang.completeAll r.stack v none).1.heads.size - r.stack.heads.size) hs₁ hlt
    fun i x hi hx => hR₁ i x (.inl hi) hx
  unfold handleError
  simp only
  split
  · exact hr.withStack hs₂
  · rename_i x hx
    refine recover_ok (hr.withStack (modifyHead_sound hs₂ v _ fun y hy => ?_)) (fun i y hi hy => ?_) hl
    · exact (hs₂.heads hy).congr rfl rfl
    · subst hi
      replace hy := (getElem?_modifyHead _ i _ i).symm.trans hy
      rw [if_pos rfl, hx] at hy
      rw [← Option.some.inj hy]
      exact hh₂ i x rfl hx

end Language

end BaselineAudit.Parsing
