import BaselineAudit.Proofs.Parsing.Stack

/-!
# Ways down a stack

Completing a rule and going back after an error take trees off the stack, on all ways down at once.

* `Stack.Way`: the ways down from a node.
* `Stack.Way.covers`, `Stack.Way.chain`: the trees on a way cover the text between its ends, and join
  the states there.
* `Stack.popCount_way`, `Stack.popAll_way`: what a walk finds are ways.
-/

namespace BaselineAudit.Parsing

variable {σ : Type}

/-- A walker one step further down. -/
def Walker.down (w : Walker σ) (l : Link σ) : Walker σ :=
  { node := l.below
    trees := match l.tree with
      | some t => t :: w.trees
      | none => w.trees
    depth := match l.tree with
      | some t => if t.extra then w.depth else w.depth + 1
      | none => w.depth + 1 }

namespace Stack

/-- The walkers that can be sent down from a node. -/
inductive Way (s : Stack σ) (top : Nat) : Walker σ → Prop
  | start : Way s top ⟨top, [], 0⟩
  | down {w l} : Way s top w → l ∈ (s.node w.node).links → Way s top (w.down l)

section

variable {lang : Language σ} {D : Discipline lang} {cs : List Char} {s : Stack σ} {top : Nat}
  {w : Walker σ}

/-- The trees on a way cover the text between its ends. -/
theorem Way.covers (h : s.Way top w) (hs : s.NodesOk D cs) (ht : top < s.nodes.size) :
    w.node < s.nodes.size ∧ (∀ t ∈ w.trees, D.sound t) ∧
      ∃ text, Tree.CoversAll w.trees text ∧
        (s.node w.node).place.Behind text (s.node top).place := by
  induction h with
  | start => exact ⟨ht, fun _ h => absurd h List.not_mem_nil, [], Tree.coversAll_nil.mpr rfl, .refl _⟩
  | @down w l _ hl ih =>
    obtain ⟨hlt, hsound, text, hc, hb⟩ := ih
    obtain ⟨hlt', hbetween⟩ := (hs _ hlt).fits l hl
    obtain ⟨below, tree⟩ := l
    cases tree with
    | none =>
      refine ⟨hlt', hsound, text, hc, ?_⟩
      rw [show (s.node (w.down ⟨below, none⟩).node).place = (s.node w.node).place from hbetween]
      exact hb
    | some t =>
      obtain ⟨ht, u, hu, hub⟩ := hbetween
      refine ⟨hlt', fun x hx => ?_, u ++ text, Tree.coversAll_cons.mpr ⟨u, text, rfl, hu, hc⟩,
        hub.trans hb⟩
      rcases List.mem_cons.mp hx with rfl | hx
      · exact ht
      · exact hsound x hx

/-- The trees on a way from a good node join the states at its ends. -/
theorem Way.chain (h : s.Way top w) (hg : s.Good D top) :
    s.Good D w.node ∧
      Chain D.joins (s.node top).state (s.node w.node).state w.trees w.depth := by
  induction h with
  | start => exact ⟨hg, .nil⟩
  | @down w l _ hl ih =>
    obtain ⟨hgood, hchain⟩ := ih
    obtain ⟨hb, hj⟩ := hgood.below hl
    obtain ⟨below, tree⟩ := l
    refine ⟨hb, ?_⟩
    cases tree with
    | none => exact .mark hchain hj
    | some t => exact .tree hchain hj

/-! ## Walks -/

variable {visit : Walker σ → Bool × Bool}

theorem stepWalkers_way (pending kept added found : List (Walker σ))
    (hp : ∀ w ∈ pending, s.Way top w) (hk : ∀ w ∈ kept, s.Way top w)
    (ha : ∀ w ∈ added, s.Way top w) (hf : ∀ w ∈ found, s.Way top w ∧ (visit w).1 = true) :
    let r := s.stepWalkers visit pending kept added found
    (∀ w ∈ r.1, s.Way top w) ∧ ∀ w ∈ r.2, s.Way top w ∧ (visit w).1 = true := by
  induction pending generalizing kept added found with
  | nil =>
    refine ⟨fun w hw => ?_, hf⟩
    rcases List.mem_append.mp hw with hw | hw
    · exact hk w (List.mem_reverse.mp hw)
    · exact ha w hw
  | cons w pending ih =>
    have hw := hp w (List.mem_cons_self ..)
    have hpending : ∀ w ∈ pending, s.Way top w := fun x hx => hp x (List.mem_cons_of_mem w hx)
    have hfound : ∀ x ∈ (if (visit w).1 then w :: found else found),
        s.Way top x ∧ (visit x).1 = true := by
      intro x hx
      split at hx
      · rename_i hv
        rcases List.mem_cons.mp hx with rfl | hx
        · exact ⟨hw, hv⟩
        · exact hf x hx
      · exact hf x hx
    rw [stepWalkers]
    simp only
    split
    · rename_i first others _ hlinks
      have hdown : ∀ l ∈ first :: others, s.Way top (w.down l) := fun l hl => .down hw (hlinks ▸ hl)
      refine ih _ _ _ hpending (fun x hx => ?_) (fun x hx => ?_) hfound
      · rcases List.mem_cons.mp hx with rfl | hx
        · exact hdown first (List.mem_cons_self ..)
        · exact hk x hx
      · rcases List.mem_append.mp hx with hx | hx
        · exact ha x hx
        · obtain ⟨l, hl, rfl⟩ := List.mem_map.mp hx
          exact hdown l (List.mem_cons_of_mem first (List.mem_of_mem_take hl))
    · exact ih _ _ _ hpending hk ha hfound

theorem walk_way {fuel : Nat} {walkers found : List (Walker σ)}
    (hw : ∀ w ∈ walkers, s.Way top w) (hf : ∀ w ∈ found, s.Way top w ∧ (visit w).1 = true) :
    ∀ w ∈ s.walk visit fuel walkers found, s.Way top w ∧ (visit w).1 = true := by
  induction fuel generalizing walkers found with
  | zero => exact fun w hw => hf w (List.mem_reverse.mp hw)
  | succ fuel ih =>
    cases walkers with
    | nil => exact fun w hw => hf w (List.mem_reverse.mp hw)
    | cons x rest =>
      rw [walk]
      · obtain ⟨h₁, h₂⟩ := stepWalkers_way _ [] [] _ hw (by simp) (by simp) hf
        exact ih h₁ h₂
      · exact List.cons_ne_nil x rest

theorem start_way (h : Head σ) : ∀ w ∈ [(⟨h.node, [], 0⟩ : Walker σ)], s.Way h.node w := by
  intro w hw
  rw [List.mem_singleton.mp hw]
  exact .start

/-- Walks over a number of trees find ways that deep. -/
theorem popCount_way {h : Head σ} {count : Nat} (hw : w ∈ s.popCount h count) :
    s.Way h.node w ∧ w.depth = count := by
  obtain ⟨h₁, h₂⟩ := walk_way (start_way h) (by simp) w hw
  exact ⟨h₁, by simpa using h₂⟩

/-- Walks to the bottom find ways that end there. -/
theorem popAll_way {h : Head σ} (hw : w ∈ s.popAll h) :
    s.Way h.node w ∧ (s.node w.node).links = [] := by
  obtain ⟨h₁, h₂⟩ := walk_way (start_way h) (by simp) w hw
  exact ⟨h₁, List.isEmpty_iff.mp h₂⟩

/-- Ways that end at one node, put together. -/
theorem mem_grouped {ways : List (Walker σ)} {n : Nat} {trees : List (List (Tree σ))}
    (h : (n, trees) ∈ grouped ways) :
    trees ≠ [] ∧ ∀ ts ∈ trees, ∃ w ∈ ways, w.node = n ∧ w.trees = ts := by
  -- every group that is made on the way is made of ways that end at its node
  suffices hinv : ∀ g ∈ grouped ways, g.2 ≠ [] ∧
      ∀ ts ∈ g.2, ∃ w ∈ ways, w.node = g.1 ∧ w.trees = ts from hinv (n, trees) h
  refine List.foldlRecOn (motive := fun (groups : List (Nat × List (List (Tree σ)))) =>
    ∀ g ∈ groups, g.2 ≠ [] ∧ ∀ ts ∈ g.2, ∃ w ∈ ways, w.node = g.1 ∧ w.trees = ts) _ _ (by simp)
    fun groups hg w hw g hgm => ?_
  split at hgm
  · obtain ⟨⟨m, trees⟩, hm, rfl⟩ := List.mem_map.mp hgm
    obtain ⟨hne, hts⟩ := hg _ hm
    simp only
    split
    · rename_i hmw
      refine ⟨by simp, fun ts h => ?_⟩
      rcases List.mem_append.mp h with h | h
      · exact hts ts h
      · exact ⟨w, hw, hmw.symm, (List.mem_singleton.mp h).symm⟩
    · exact ⟨hne, hts⟩
  · rcases List.mem_append.mp hgm with hgm | hgm
    · exact hg g hgm
    · rw [List.mem_singleton.mp hgm]
      exact ⟨by simp, fun ts h => ⟨w, hw, rfl, (List.mem_singleton.mp h).symm⟩⟩

end

end Stack

end BaselineAudit.Parsing
