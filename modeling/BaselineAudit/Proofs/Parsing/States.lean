import BaselineAudit.Parsing.Table

/-!
# Changing the states of an automaton

What holds of all actions and all next states of a state, and how it changes when a state is filled in,
merged with another one or redirected. Which actions are meant is left open here.

* `State.All`: a property of actions and one of next states hold throughout a state.
* `State.All.redirect`, `State.All.union`: other states in the place of the next ones, and a state that
  does what either of two does.
-/

namespace BaselineAudit.Parsing

namespace State

/-- `A` holds of the action for each terminal, and `G` of the next state after each rule. -/
structure All (A : Nat → Action → Prop) (G : Nat → Nat → Prop) (s : State) : Prop where
  action : ∀ n a, s.action? n = some a → A n a
  goto : ∀ r m, s.gotos.getD r 0 = m → m ≠ 0 → G r m

variable {A A' : Nat → Action → Prop} {G G' : Nat → Nat → Prop} {s t : State}

theorem All.mono (h : s.All A G) (hA : ∀ n a, A n a → A' n a) (hG : ∀ r m, G r m → G' r m) :
    s.All A' G' :=
  ⟨fun n a ha => hA n a (h.action n a ha), fun r m hm hne => hG r m (h.goto r m hm hne)⟩

theorem All.setAction (h : s.All A G) {symbol : Nat} {action : Option Action}
    (ha : ∀ a, action = some a → A symbol a) :
    State.All A G { s with actions := s.actions.setIfInBounds symbol action } := by
  refine ⟨fun n a hn => ?_, h.goto⟩
  rw [action?, Array.getD_eq_getD_getElem?, Array.getElem?_setIfInBounds] at hn
  split at hn
  next heq =>
    subst heq
    split at hn
    · exact ha a hn
    · exact absurd hn (by simp)
  next =>
    refine h.action n a ?_
    rw [action?, Array.getD_eq_getD_getElem?]
    exact hn

theorem All.setGoto (h : s.All A G) {r next : Nat} (hG : G r next) :
    State.All A G { s with gotos := s.gotos.setIfInBounds r next } := by
  refine ⟨h.action, fun r' m hm hne => ?_⟩
  rw [Array.getD_eq_getD_getElem?, Array.getElem?_setIfInBounds] at hm
  split at hm
  next heq =>
    subst heq
    split at hm
    · exact (show next = m from hm) ▸ hG
    · exact absurd hm.symm hne
  next =>
    refine h.goto r' m ?_ hne
    rw [Array.getD_eq_getD_getElem?]
    exact hm

/-- Putting other states in the place of those that a state leads to. -/
theorem All.redirect {f : Nat → Nat} (h : s.All A G) (hA : ∀ n a, A n a → A' n (Merging.redirect f a))
    (hG : ∀ r m, m ≠ 0 → G r m → G' r (f m)) : (Merging.redirectState f s).All A' G' := by
  refine ⟨fun n a ha => ?_, fun r m hm hne => ?_⟩
  · rw [action?, Merging.redirectState, Array.getD_eq_getD_getElem?, Array.getElem?_map] at ha
    cases hn : s.actions[n]? with
    | none =>
      rw [hn] at ha
      exact absurd ha (by simp)
    | some o =>
      rw [hn] at ha
      obtain ⟨a', rfl, rfl⟩ :=
        Option.map_eq_some_iff.mp (show o.map (Merging.redirect f) = some a from ha)
      refine hA n a' (h.action n a' ?_)
      rw [action?, Array.getD_eq_getD_getElem?, hn]
      rfl
  · rw [Merging.redirectState, Array.getD_eq_getD_getElem?, Array.getElem?_map] at hm
    cases hr : s.gotos[r]? with
    | none =>
      rw [hr] at hm
      exact absurd hm.symm hne
    | some m' =>
      rw [hr] at hm
      have hm : (if m' = 0 then 0 else f m') = m := hm
      split at hm
      next => exact absurd hm.symm hne
      next hne' =>
        rw [← hm]
        exact hG r m' hne' (h.goto r m' (by rw [Array.getD_eq_getD_getElem?, hr]; rfl) hne')

/-- A state that does what either of two does. -/
theorem All.union (hs : s.All A G) (ht : t.All A G) : (Merging.union s t).All A G := by
  refine ⟨fun n a ha => ?_, fun r m hm hne => ?_⟩
  · rw [action?, Merging.union, Array.getD_eq_getD_getElem?, Array.getElem?_zipWith] at ha
    cases hx : s.actions[n]? with
    | none => simp [hx] at ha
    | some x =>
      cases hy : t.actions[n]? with
      | none => simp [hx, hy] at ha
      | some y =>
        simp only [hx, hy, Option.getD_some, Option.or_eq_some_iff] at ha
        rcases ha with rfl | ⟨-, rfl⟩
        · exact ht.action n a (by rw [action?, Array.getD_eq_getD_getElem?, hy]; rfl)
        · exact hs.action n a (by rw [action?, Array.getD_eq_getD_getElem?, hx]; rfl)
  · rw [Merging.union, Array.getD_eq_getD_getElem?, Array.getElem?_zipWith] at hm
    cases hx : s.gotos[r]? with
    | none => exact absurd (by simpa [hx] using hm.symm) hne
    | some x =>
      cases hy : t.gotos[r]? with
      | none => exact absurd (by simpa [hx, hy] using hm.symm) hne
      | some y =>
        simp only [hx, hy, Option.getD_some] at hm
        split at hm
        · subst hm
          exact hs.goto r x (by rw [Array.getD_eq_getD_getElem?, hx]; rfl) hne
        · subst hm
          exact ht.goto r y (by rw [Array.getD_eq_getD_getElem?, hy]; rfl) hne

/-- A state that does what one of several does. -/
theorem All.unions {ss : List State} (hs : s.All A G) (h : ∀ t ∈ ss, t.All A G) :
    (ss.foldl Merging.union s).All A G :=
  List.foldlRecOn (motive := fun (s : State) => s.All A G) ss Merging.union hs
    fun _ hs t ht => hs.union (h t ht)

/-- The state for errors looks for tokens only to find out how to go on. -/
theorem All.errorState (p : Productions) (confusion : Confusion) (together : Array NatSet)
    (h : s.All A G) (hA : ∀ n, A n .recover) :
    (Parsing.errorState p confusion together s).All A G := by
  unfold Parsing.errorState
  simp only
  refine List.foldlRecOn (motive := fun (a : Array (Option Action)) =>
    State.All A G { s with actions := a }) _ _ ⟨h.action, h.goto⟩ fun a ha n _ => ?_
  exact ha.setAction fun a' ha' => Option.some.inj ha' ▸ hA n

end State

end BaselineAudit.Parsing
