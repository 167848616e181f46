import BaselineAudit.Proofs.Parsing.States
import BaselineAudit.Proofs.Parsing.Table

/-!
# What the states of a table have read

A state of the canonical automaton is made for some items. Whatever leads to it reads one step of each
of them, and what it completes is one of its items with all steps read. Merging states of one core keeps
that. Where a state is skipped that only completes a hidden rule of one part, the part is read in the
place of the rule; so a symbol may be read for another one, as long as that one is hidden.

* `Productions.Reads`: a symbol leads from some items to others.
* `Productions.exists_reading_canonical`: the states of the canonical automaton.
* `Bypass.reading_apply`: skipping states.
* `Table.exists_reading`: what follows for the table of a grammar.
-/

namespace BaselineAudit.Parsing

namespace Productions

/-- A symbol stands where a step is expected: it is that of the step, or that of the step is hidden. -/
def Matches (p : Productions) (s : Step) (symbol : Nat) : Prop :=
  s.symbol = symbol ∨ p.labels.getD s.symbol none = none

/-- A state that was made for the items `own` has an item: one of them, or an unread alternative. -/
def Has (p : Productions) (own : List Nat) (x : Nat) : Prop :=
  x ∈ own ∨ ∃ r, x ∈ p.toItems.starts.getD r []

/-- A symbol leads from the items `own` to those of `target`. -/
def Reads (p : Productions) (own : List Nat) (symbol : Nat) (target : List Nat) : Prop :=
  ∀ y ∈ target, ∃ x s rest, p.Has own x ∧ (p.toItems.item x).rest = s :: rest ∧
    p.Matches s symbol ∧ y = p.toItems.next.getD x 0

/-- A state that was made for the items `own` has read an alternative of a rule. -/
def Completes (p : Productions) (own : List Nat) (rule count : Nat)
    (aliases : List (Option Label)) : Prop :=
  ∃ x, p.Has own x ∧ (p.toItems.item x).rest = [] ∧ (p.toItems.item x).rule = rule ∧
    (p.toItems.item x).total = count ∧ aliases = trimAliases (p.toItems.item x).passed

end Productions

/-- What an action for symbol `n` reads and completes. -/
def Action.Moves (R : Nat → Nat → Prop) (C : Nat → Nat → List (Option Label) → Prop) (n : Nat) :
    Action → Prop
  | .shift m => R n m
  | .reduce rule count aliases again => C rule count aliases ∧ ∀ m, again = some m → R n m
  | _ => True

/-- What a state that was made for the items `own` reads and completes, where `R` says what leads to
which state. -/
def State.Moves (p : Productions) (own : List Nat) (R : Nat → Nat → Prop) (s : State) : Prop :=
  s.All (fun n a => a.Moves R (p.Completes own) n) fun r m => R (p.ruleSymbol r) m

theorem Action.Moves.redirect {R R' : Nat → Nat → Prop} {C : Nat → Nat → List (Option Label) → Prop}
    {n : Nat} {a : Action} {f : Nat → Nat} (h : a.Moves R C n) (hR : ∀ m, R n m → R' n (f m)) :
    (Merging.redirect f a).Moves R' C n := by
  cases a with
  | shift m => exact hR m h
  | reduce rule count aliases again =>
    refine ⟨h.1, fun m hm => ?_⟩
    obtain ⟨m', hm', rfl⟩ := Option.map_eq_some_iff.mp hm
    exact hR m' (h.2 m' hm')
  | extra => trivial
  | accept => trivial
  | recover => trivial

theorem Action.Moves.mono {R R' : Nat → Nat → Prop} {C : Nat → Nat → List (Option Label) → Prop}
    {n : Nat} {a : Action} (h : a.Moves R C n) (hR : ∀ m, R n m → R' n m) : a.Moves R' C n := by
  cases a with
  | shift m => exact hR m h
  | reduce rule count aliases again => exact ⟨h.1, fun m hm => hR m (h.2 m hm)⟩
  | extra => trivial
  | accept => trivial
  | recover => trivial

theorem State.Moves.redirect {p : Productions} {own : List Nat} {R R' : Nat → Nat → Prop} {s : State}
    {f : Nat → Nat} (h : s.Moves p own R) (hR : ∀ n m, R n m → R' n (f m)) :
    (Merging.redirectState f s).Moves p own R' :=
  All.redirect h (fun n _ ha => ha.redirect (hR n)) fun _ m _ hm => hR _ m hm

theorem State.Moves.mono {p : Productions} {own : List Nat} {R R' : Nat → Nat → Prop} {s : State}
    (h : s.Moves p own R) (hR : ∀ n m, R n m → R' n m) : s.Moves p own R' :=
  All.mono h (fun n _ ha => ha.mono (hR n)) fun _ m hm => hR _ m hm

namespace Productions

variable {p : Productions}

theorem Blank.moves {s : State} (h : Blank s) (own : List Nat) (R : Nat → Nat → Prop) :
    s.Moves p own R :=
  ⟨fun n a ha => absurd ((h.1 n).symm.trans ha) (by simp), fun r m hm hne =>
    absurd (hm.symm.trans (h.2 r)) hne⟩

/-! ## The construction -/

/-- The items of a kernel. -/
def itemsIn (k : Kernel) : List Nat := k.map (·.1)

theorem has_of_mem_closure {k : Kernel} {x : Nat × NatSet} (h : x ∈ p.toItems.closure k) :
    p.Has (itemsIn k) x.1 := by
  rcases Items.mem_closure h with h | ⟨r, -, h⟩
  · exact .inl (List.mem_map_of_mem h)
  · exact .inr ⟨r, h⟩

/-- The kernel that a symbol leads to has read the symbol. -/
theorem reads_successor (k : Kernel) (symbol : Nat) :
    p.Reads (itemsIn k) symbol (itemsIn (p.successor k symbol)) := by
  intro y hy
  obtain ⟨z, hz, rfl⟩ := List.mem_map.mp hy
  obtain ⟨x, hx, s, rest, hrest, hs, hnext⟩ := Items.mem_successors
    (Q := fun i _ => ∃ x ∈ p.toItems.closure k, ∃ s rest, (p.toItems.item x.1).rest = s :: rest ∧
      s.symbol = symbol ∧ i = p.toItems.next.getD x.1 0)
    (fun h _ => h) (fun x hx s rest hrest hs => ⟨x, hx, s, rest, hrest, hs, rfl⟩) z hz
  exact ⟨x.1, s, rest, has_of_mem_closure hx, hrest, .inl hs, hnext⟩

/-- A symbol leads from the items `own` to a state that is known. -/
def ReadsInto (p : Productions) (kernels : Array Kernel) (own : List Nat) (symbol m : Nat) : Prop :=
  ∃ k, kernels[m]? = some k ∧ p.Reads own symbol (itemsIn k)

/-- What the states that are known so far read and complete. -/
def Aware (p : Productions) (c : Construction) : Prop :=
  ∀ (n : Nat) s k, c.states[n]? = some s → c.kernels[n]? = some k →
    s.Moves p (itemsIn k) (p.ReadsInto c.kernels (itemsIn k))

theorem ReadsInto.extended {f g : Nat → List Nat} {c c' : Construction} (h : Extended f g c c')
    {own : List Nat} {symbol m : Nat} (hm : p.ReadsInto c.kernels own symbol m) :
    p.ReadsInto c'.kernels own symbol m := by
  obtain ⟨k, hk, hreads⟩ := hm
  exact ⟨k, h.kernels m k hk, hreads⟩

theorem completion_moves {k : Kernel} {i n : Nat} {follow : NatSet} {R : Nat → Nat → Prop}
    (hx : (i, follow) ∈ p.toItems.closure k) (hrest : (p.toItems.item i).rest = []) :
    (p.toItems.completion i).Moves R (p.Completes (itemsIn k)) n := by
  unfold Items.completion
  simp only
  split
  · trivial
  · exact ⟨⟨i, has_of_mem_closure hx, hrest, rfl, rfl, rfl⟩, by simp⟩

theorem settle_moves {k : Kernel} {i symbol next : Nat} {follow : NatSet} {R : Nat → Nat → Prop}
    (hx : (i, follow) ∈ p.toItems.closure k) (hrest : (p.toItems.item i).rest = [])
    (hR : R symbol next) :
    (p.toItems.settle k symbol i next).Moves R (p.Completes (itemsIn k)) symbol := by
  have hcomplete := completion_moves (p := p) (n := symbol) (R := R) hx hrest
  have hshift : (Action.shift next).Moves R (p.Completes (itemsIn k)) symbol := hR
  unfold Items.settle
  simp only
  split
  · split
    next heq =>
      rw [heq] at hcomplete
      exact ⟨hcomplete.1, fun m hm => Option.some.inj hm ▸ hR⟩
    next => exact hcomplete
  · split
    · exact hshift
    · split
      · exact hcomplete
      · split
        · exact hcomplete
        · exact hshift

theorem states_coreFor (c : Construction) (key : Nat) (core : List Nat) :
    (coreFor c key core).2.states = c.states := by
  unfold coreFor
  split <;> rfl

/-- A state with a kernel is one that is known, or does nothing yet. -/
theorem states_intern {c : Construction} {blank : State} (hblank : Blank blank) (k : Kernel) {n : Nat}
    {s : State} (h : (c.intern blank k).2.states[n]? = some s) : c.states[n]? = some s ∨ Blank s := by
  obtain ⟨key, heq⟩ := intern_eq c blank k
  rw [heq] at h
  unfold internAt at h
  split at h
  · exact .inl h
  · simp only [states_coreFor, Array.getElem?_push] at h
    split at h
    · exact .inr (Option.some.inj h ▸ hblank)
    · exact .inl h

theorem Aware.intern {coreOf : Nat → List Nat} {c : Construction} (hc : p.Sane coreOf c)
    (ha : p.Aware c) {blank : State} (hblank : Blank blank) {k : Kernel} (hk : p.KernelOk k) :
    p.Aware (c.intern blank k).2 := by
  obtain ⟨coreOf', -, hext, -⟩ := intern_spec hc hblank hk
  intro n s k' hs hk'
  rcases states_intern hblank k hs with hs | hs
  · have hlt := (Array.getElem?_eq_some_iff.mp hs).1
    have hold := Array.getElem?_eq_getElem (hc.size ▸ hlt)
    obtain rfl := Option.some.inj ((hext.kernels n _ hold).symm.trans hk')
    exact (ha n s _ hs hold).mono fun _ _ => ReadsInto.extended hext
  · exact hs.moves _ _

/-- The state that a symbol leads to was made for what the symbol reads. -/
theorem internNext_aware (hp : p.Tidy) {coreOf : Nat → List Nat} {c : Construction}
    (hc : p.Sane coreOf c) (ha : p.Aware c) {blank : State} (hblank : Blank blank) {k : Kernel}
    (hk : p.KernelOk k) (symbol : Nat) :
    p.Aware (p.internNext blank c k symbol).2 ∧
      ((p.internNext blank c k symbol).1 ≠ 0 →
        p.ReadsInto (p.internNext blank c k symbol).2.kernels (itemsIn k) symbol
          (p.internNext blank c k symbol).1) := by
  unfold internNext
  split
  next => exact ⟨ha, fun h => absurd rfl h⟩
  next hne =>
    obtain ⟨hkernel, -, -⟩ := successor_role hp hk hne
    obtain ⟨coreOf', -, -, hget⟩ := intern_spec hc hblank hkernel
    exact ⟨ha.intern hc hblank hkernel, fun _ => ⟨_, hget hne, reads_successor k symbol⟩⟩

/-- One symbol keeps the invariant, and what is found out about the state holds of it. -/
theorem expandSymbol_aware (hp : p.Tidy) {coreOf : Nat → List Nat} {acc : Construction × State}
    (hc : p.Sane coreOf acc.1) (ha : p.Aware acc.1) {blank : State} (hblank : Blank blank)
    {k : Kernel} (hk : p.KernelOk k)
    (hs : acc.2.Moves p (itemsIn k) (p.ReadsInto acc.1.kernels (itemsIn k))) (symbol : Nat) :
    p.Aware (p.expandSymbol blank k acc symbol).1 ∧
      (p.expandSymbol blank k acc symbol).2.Moves p (itemsIn k)
        (p.ReadsInto (p.expandSymbol blank k acc symbol).1.kernels (itemsIn k)) := by
  obtain ⟨coreOf', -, hext, -⟩ := internNext_spec hp hc hblank hk symbol
  obtain ⟨haware, hnext⟩ := internNext_aware hp hc ha hblank hk symbol
  have hs' := hs.mono fun _ _ => ReadsInto.extended hext
  unfold expandSymbol
  generalize p.internNext blank acc.1 k symbol = r at haware hnext hs'
  obtain ⟨next, c⟩ := r
  simp only at haware hnext hs' ⊢
  cases hrule : p.rule? symbol with
  | some r =>
    have hr := rule?_eq_some_iff.mp hrule
    refine ⟨haware, ?_⟩
    simp only
    split
    · exact hs'
    next hne => exact State.All.setGoto hs' (hr ▸ hnext hne)
  | none =>
    refine ⟨haware, State.All.setAction hs' fun a ha => ?_⟩
    split at ha
    next i hcompleted =>
      obtain ⟨follow, hmem, hrest, -⟩ := Items.completed?_spec hcompleted
      have hmem := (List.mem_filter.mp hmem).1
      rw [← Option.some.inj ha]
      split
      · exact completion_moves hmem hrest
      next hne => exact settle_moves hmem hrest (hnext hne)
    next =>
      split at ha
      next hne =>
        rw [← Option.some.inj ha]
        exact hnext hne
      next =>
        split at ha
        · rw [← Option.some.inj ha]
          trivial
        · exact absurd ha (by simp)

theorem fst_expandSymbol (blank : State) (k : Kernel) (acc : Construction × State) (symbol : Nat) :
    (p.expandSymbol blank k acc symbol).1 = (p.internNext blank acc.1 k symbol).2 := by
  unfold expandSymbol
  cases p.rule? symbol with
  | some r => rfl
  | none => rfl

/-- Finding out what a state does keeps the invariant. -/
theorem expand_aware (hp : p.Tidy) {coreOf : Nat → List Nat} {c : Construction}
    (hc : p.Sane coreOf c) (ha : p.Aware c) {blank : State} (hblank : Blank blank) {n : Nat}
    (hn : n < c.states.size) : p.Aware (p.toItems.expand blank c n) := by
  obtain ⟨s, hs⟩ : ∃ s, c.states[n]? = some s := ⟨_, Array.getElem?_eq_getElem hn⟩
  obtain ⟨k, hk⟩ : ∃ k, c.kernels[n]? = some k := ⟨_, Array.getElem?_eq_getElem (hc.size ▸ hn)⟩
  have hkernel := hc.kernel n k hk
  rw [expand_eq]
  simp only [Array.getD_eq_getD_getElem?, hs, hk, Option.getD_some]
  obtain ⟨coreOf', -, hext, haware, hmoves⟩ := List.foldlRecOn
    (motive := fun (acc : Construction × State) => ∃ coreOf', p.Sane coreOf' acc.1 ∧
      Extended coreOf coreOf' c acc.1 ∧ p.Aware acc.1 ∧
      acc.2.Moves p (itemsIn k) (p.ReadsInto acc.1.kernels (itemsIn k)))
    (List.range p.symbolCount) (p.expandSymbol blank k) (b := (c, s))
    ⟨coreOf, hc, .refl coreOf c, ha, ha n s k hs hk⟩
    fun acc ⟨coreOf₁, hsane₁, hext₁, haware₁, hmoves₁⟩ symbol _ => by
      obtain ⟨coreOf₂, hsane₂, hext₂, -⟩ := internNext_spec hp hsane₁ hblank hkernel symbol
      rw [← fst_expandSymbol] at hsane₂ hext₂
      exact ⟨coreOf₂, hsane₂, hext₁.trans hext₂,
        expandSymbol_aware hp hsane₁ haware₁ hblank hkernel hmoves₁ symbol⟩
  generalize (List.range p.symbolCount).foldl (p.expandSymbol blank k) (c, s) = r at *
  intro m s' k' hs' hk'
  rw [Array.getElem?_setIfInBounds] at hs'
  split at hs'
  next hm =>
    subst hm
    obtain rfl : k = k' := Option.some.inj ((hext.kernels n k hk).symm.trans hk')
    split at hs'
    · exact Option.some.inj hs' ▸ hmoves
    · exact absurd hs' (by simp)
  next => exact haware m s' k' hs' hk'

theorem expandFrom_aware (hp : p.Tidy) {blank : State} (hblank : Blank blank) (fuel n : Nat)
    {coreOf : Nat → List Nat} {c : Construction} (hc : p.Sane coreOf c) (ha : p.Aware c) :
    p.Aware (p.toItems.expandFrom blank fuel n c) := by
  induction fuel generalizing n coreOf c with
  | zero => exact ha
  | succ fuel ih =>
    rw [Items.expandFrom]
    split
    next hn =>
      obtain ⟨coreOf', hsane, -⟩ := expand_spec hp hc hblank hn
      exact ih (n + 1) hsane (expand_aware hp hc ha hblank hn)
    next => exact ha

/-! ## The canonical automaton -/

/-- The items for which the states of an automaton were made: each stands for an alternative, the state
for errors has none, and all states read and complete what their items say. -/
structure Reading (p : Productions) (items : Nat → List Nat) (states : Array State) : Prop where
  error : items 0 = []
  stands : ∀ n, ∀ x ∈ items n, ∃ r steps i, p.Stands x r steps i
  moves : ∀ (n : Nat) s, states[n]? = some s →
    s.Moves p (items n) fun symbol m => p.Reads (items n) symbol (items m)

theorem KernelOk.stands {k : Kernel} (h : p.KernelOk k) {x : Nat} (hx : x ∈ itemsIn k) :
    ∃ r steps i, p.Stands x r steps i := by
  obtain ⟨y, hy, rfl⟩ := List.mem_map.mp hx
  cases h with
  | inside h =>
    obtain ⟨r, steps, i, -, hs⟩ := h y hy
    exact ⟨r, steps, i, hs⟩
  | outside d h =>
    obtain ⟨⟨steps, hs⟩, -⟩ := h y hy
    exact ⟨p.wholeText, steps, d, hs⟩

/-- The states of the canonical automaton were made for items, by their cores. -/
theorem exists_reading_canonical (hp : p.Tidy) :
    ∃ items ofCore, p.Reading items p.toItems.canonical ∧
      ByCore [] items ofCore p.toItems.canonical := by
  obtain ⟨blank, start, hblank, hstart, heq⟩ := exists_start p
  have hfirst : p.Aware (firstState blank (p.toItems.items.size + 1)) := by
    intro n s k hs hk
    obtain rfl : s = { blank with core := 0 } := by simpa [firstState] using Array.mem_of_getElem? hs
    have hs' : Blank { blank with core := 0 } := hblank
    exact hs'.moves _ _
  have hsane := firstState_sane (p := p) hblank (p.toItems.items.size + 1)
  obtain ⟨coreOf₁, hsane₁, hext₁, -⟩ := intern_spec hsane hblank hstart
  obtain ⟨coreOf₂, hsane₂, hext₂⟩ := expandFrom_spec hp hblank 100000 1 hsane₁
  have haware := expandFrom_aware hp hblank 100000 1 hsane₁ (hfirst.intern hsane hblank hstart)
  have hext := hext₁.trans hext₂
  rw [heq]
  generalize p.toItems.expandFrom blank 100000 1 _ = c at *
  have hitems : ∀ {m : Nat} {k}, c.kernels[m]? = some k →
      itemsIn (c.kernels.getD m []) = itemsIn k := by
    intro m k hk
    rw [Array.getD_eq_getD_getElem?, hk, Option.getD_some]
  refine ⟨fun n => itemsIn (c.kernels.getD n []), coreOf₂, ⟨hitems (hext.kernels 0 [] rfl),
    fun n x hx => ?_, fun n s hs => ?_⟩, ?_, fun n s hs => ?_, fun n hn => ?_⟩
  · rw [Array.getD_eq_getD_getElem?] at hx
    cases hk : c.kernels[n]? with
    | none =>
      rw [hk] at hx
      exact absurd hx List.not_mem_nil
    | some k =>
      rw [hk] at hx
      exact (hsane₂.kernel n k hk).stands hx
  · obtain ⟨k, hk⟩ := hsane₂.exists_kernel hs
    simp only [hitems hk]
    refine (haware n s k hs hk).mono fun symbol m hm => ?_
    obtain ⟨k', hk', hreads⟩ := hm
    rw [hitems hk']
    exact hreads
  · exact hext.coreOf 0 Nat.zero_lt_one
  · obtain ⟨k, hk⟩ := hsane₂.exists_kernel hs
    obtain ⟨-, hcore, -⟩ := hsane₂.state n s k hs hk
    exact (hitems hk).trans hcore.symm
  · show itemsIn (c.kernels.getD n []) = []
    rw [Array.getD_eq_getD_getElem?, Array.getElem?_eq_none (hsane₂.size ▸ hn)]
    rfl

end Productions

open Productions (Blank Reading ByCore)

variable {p : Productions} {items : Nat → List Nat} {states : Array State}

/-! ## Merging states -/

namespace Merging

/-- Merged states have the items of those that they were merged from. -/
theorem Ok.reading_merged {m : Merging} (h : m.Ok states) {ofCore : Nat → List Nat}
    (hr : p.Reading items states) (hv : ByCore [] items ofCore states) {blank : State}
    (hblank : Blank blank) : p.Reading (m.groupValue [] items) (m.merged states blank) := by
  refine ⟨h.groupValue_zero hv, fun g x hx => ?_, fun g s hs => ?_⟩
  · unfold groupValue at hx
    cases hhead : (m.members.getD g []).head? with
    | none =>
      rw [hhead] at hx
      exact absurd hx List.not_mem_nil
    | some n =>
      rw [hhead] at hx
      exact hr.stands n x hx
  · rw [merged, Array.getElem?_map] at hs
    obtain ⟨members, hmembers, rfl⟩ := Option.map_eq_some_iff.mp hs
    have hget : m.members.getD g [] = members := by
      rw [Array.getD_eq_getD_getElem?, hmembers]
      rfl
    have hall : ∀ n ∈ members, (states.getD n blank).Moves p (m.groupValue [] items g)
        fun symbol m' => p.Reads (m.groupValue [] items g) symbol (items m') := by
      intro n hn
      rw [← hget] at hn
      rw [h.groupValue_eq hv hn, Array.getD_eq_getD_getElem?, Array.getElem?_eq_getElem (h.lt g n hn)]
      exact hr.moves n _ (Array.getElem?_eq_getElem (h.lt g n hn))
    refine State.Moves.redirect (R := fun symbol m' => p.Reads (m.groupValue [] items g) symbol (items m'))
      ?_ fun symbol n hn => ?_
    · cases members with
      | nil => exact hblank.moves _ _
      | cons first rest =>
        refine State.All.unions (hall first List.mem_cons_self) fun t ht => ?_
        obtain ⟨n, hn, rfl⟩ := List.mem_map.mp ht
        exact hall n (List.mem_cons_of_mem first hn)
    · rw [h.groupValue_groupOf hv n]
      exact hn

end Merging

/-! ## Skipping and dropping states -/

namespace Bypass

/-- Where a state is skipped, a part is read in the place of a hidden rule. -/
theorem reads_resolve {s : State} {own : List Nat}
    (hs : s.Moves p own fun symbol m => p.Reads own symbol (items m)) (fuel : Nat) {symbol m : Nat}
    (hm : p.Reads own symbol (items m)) :
    p.Reads own symbol (items (resolve (states.map (onlyRule? p)) s.gotos fuel m)) := by
  induction fuel generalizing m with
  | zero => exact hm
  | succ fuel ih =>
    rw [resolve]
    split
    · exact hm
    next rule honly =>
      have hhidden := hidden_of_skipped honly
      split
      · exact hm
      next hne =>
        refine ih fun y hy => ?_
        obtain ⟨x, s, rest, hx, hrest, hmatch, hnext⟩ := hs.goto rule _ rfl (by simpa using hne) y hy
        refine ⟨x, s, rest, hx, hrest, .inr ?_, hnext⟩
        rcases hmatch with hsymbol | hnone
        · rw [hsymbol, hhidden]
        · exact hnone

theorem reading_apply (h : p.Reading items states) : p.Reading items (apply p states) := by
  refine ⟨h.error, h.stands, fun n s hs => ?_⟩
  rw [apply, Array.getElem?_map] at hs
  obtain ⟨s, hn, rfl⟩ := Option.map_eq_some_iff.mp hs
  have hmoves := h.moves n s hn
  exact hmoves.redirect fun symbol m hm => reads_resolve hmoves _ hm

theorem exists_reading_compacted (h : p.Reading items states) {blank : State}
    (hblank : Blank blank) : ∃ items', p.Reading items' (compacted states blank) := by
  obtain ⟨order, place, hzero, hplace, heq⟩ := exists_compacted states blank
  have herror : items (order.getD 0 0) = [] := by
    rw [List.getD_eq_getElem?_getD, hzero]
    exact h.error
  refine ⟨fun i => items (order.getD i 0), herror, fun i => h.stands (order.getD i 0), fun i s hs => ?_⟩
  rw [heq, List.getElem?_toArray, List.getElem?_map] at hs
  obtain ⟨n, hn, rfl⟩ := Option.map_eq_some_iff.mp hs
  have hmoves : (states.getD n blank).Moves p (items n)
      fun symbol m => p.Reads (items n) symbol (items m) := by
    rw [Array.getD_eq_getD_getElem?]
    cases hx : states[n]? with
    | none => exact hblank.moves _ _
    | some x => exact h.moves n x hx
  rw [List.getD_eq_getElem?_getD, hn]
  refine hmoves.redirect fun symbol m hm => ?_
  -- a state that was dropped counts as the one for errors, which has no items
  by_cases hp : place.getD m 0 = 0
  · rw [hp, herror]
    exact fun y hy => absurd hy List.not_mem_nil
  · rw [List.getD_eq_getElem?_getD, (hplace m).resolve_left hp]
    exact hm

end Bypass

/-! ## Tables -/

namespace Table

/-- The items that the states of a table were made for, and what the states read and complete. -/
structure Reading (t : Table) (items : Nat → List Nat) : Prop where
  error : items 0 = []
  stands : ∀ q, ∀ x ∈ items q, ∃ r steps d, t.grammar.Stands x r steps d
  action : ∀ q n a, t.action? q n = some a → a.Moves
    (fun symbol m => t.grammar.Reads (items q) symbol (items m)) (t.grammar.Completes (items q)) n
  goto : ∀ q r m, (t.state q).gotos.getD r 0 = m → m ≠ 0 →
    t.grammar.Reads (items q) (t.grammar.ruleSymbol r) (items m)

/-- The automaton with its state for errors. -/
theorem reading_complete {ofCore : Nat → List Nat} (h : p.Reading items p.toItems.canonical)
    (hv : ByCore [] items ofCore p.toItems.canonical) :
    p.Reading items (complete p) ∧ ByCore [] items ofCore (complete p) := by
  refine ⟨⟨h.error, h.stands, fun n s hs => ?_⟩, hv.error, fun n s hs => ?_, fun n hn => ?_⟩
  · rcases getElem?_setError hs with hs | ⟨rfl, s₀, hs₀, rfl⟩
    · exact h.moves n s hs
    · exact (h.moves 0 s₀ hs₀).errorState p _ _ fun _ => trivial
  · rcases getElem?_setError hs with hs | ⟨rfl, s₀, hs₀, rfl⟩
    · exact hv.core n s hs
    · exact hv.core 0 s₀ hs₀
  · exact hv.absent n (by simpa [complete] using hn)

/-- The states of the table of a grammar were made for items. -/
theorem exists_reading {g : Grammar} (hg : g.productions.Tidy) :
    ∃ items, (ofGrammar g).Reading items := by
  have hblank := Productions.blank_blankState g.productions
  obtain ⟨items₁, ofCore, h₁, hv₁⟩ := Productions.exists_reading_canonical hg
  obtain ⟨h₂, hv₂⟩ := reading_complete h₁ hv₁
  have h₃ := (Merging.ofStates_ok g.productions g.productions.toItems.confusion _).reading_merged
    h₂ hv₂ hblank
  obtain ⟨items, h⟩ := Bypass.exists_reading_compacted (Bypass.reading_apply h₃) hblank
  obtain ⟨haction, hgoto⟩ := all_of_states h.moves fun _ _ => states_ofGrammar
  exact ⟨items, h.error, h.stands, haction, hgoto⟩

end Table

end BaselineAudit.Parsing
