import BaselineAudit.Proofs.Parsing.Items
import BaselineAudit.Proofs.Parsing.States

/-!
# The states of an automaton

A state plays one of three roles: it is the state for errors, it stands behind a whole text, or it is a
plain one. Only a state behind a whole text accepts, and it does nothing else; a plain state is left by
tokens and rules, and only the rule of whole texts leads behind a whole text.

* `Productions.Tidy`: what a grammar has to keep to.
* `State.Fits`: what a state does fits its role.
* `Productions.exists_cast_canonical`: the states of the canonical automaton.
-/

namespace BaselineAudit.Parsing

/-- The role of a state. -/
inductive Role where
  | error
  /-- Behind a whole text. -/
  | final
  | plain
  deriving DecidableEq

namespace Productions

/-- No rule uses the rule of whole texts or the end of the text, the end of the text stands nowhere
else, and whole texts are shown. -/
structure Tidy (p : Productions) : Prop where
  steps : ∀ f ∈ p.families, ∀ steps ∈ f.alternatives, ∀ s ∈ steps,
    s.symbol ≠ p.ruleSymbol 0 ∧ s.symbol ≠ p.endSymbol
  extras : p.endSymbol ∉ p.extras
  shown : p.labels.getD (p.ruleSymbol 0) none ≠ none

/-- Rule `rule` has an alternative of `count` parts that are shown under these names. -/
def Offers (p : Productions) (rule count : Nat) (aliases : List (Option Label)) : Prop :=
  ∃ f steps, p.families[rule]? = some f ∧ steps ∈ f.alternatives ∧ count = steps.length ∧
    aliases = trimAliases (steps.map (·.shownAs))

end Productions

/-- An action for symbol `n` fits the role of its state, where `S` are the states that a plain state
may lead to. -/
def Action.Fits (p : Productions) (own : Role) (S : Nat → Prop) (n : Nat) : Action → Prop
  | .shift m => own = .plain ∧ n ≠ p.endSymbol ∧ S m
  | .extra => n ≠ p.endSymbol
  | .reduce rule count aliases again => own = .plain ∧ p.Offers rule count aliases ∧
    ∀ m, again = some m → S m
  | .accept => own = .final ∧ n = p.endSymbol
  | .recover => own = .error

/-- What a state does fits its role, where `F` are the states that the rule of whole texts may lead
to. -/
structure State.Fits (p : Productions) (own : Role) (S F : Nat → Prop) (s : State) : Prop where
  action : ∀ n a, s.action? n = some a → a.Fits p own S n
  goto : ∀ r m, s.gotos.getD r 0 = m → m ≠ 0 → own = .plain ∧ (r = 0 → F m) ∧ (r ≠ 0 → S m)

theorem State.fits_iff_all {p : Productions} {own : Role} {S F : Nat → Prop} {s : State} :
    s.Fits p own S F ↔ s.All (fun n a => a.Fits p own S n)
      fun r m => own = .plain ∧ (r = 0 → F m) ∧ (r ≠ 0 → S m) :=
  ⟨fun h => ⟨h.action, h.goto⟩, fun h => ⟨h.action, h.goto⟩⟩

theorem Action.Fits.mono {p : Productions} {own : Role} {S S' : Nat → Prop} {n : Nat} {a : Action}
    (h : a.Fits p own S n) (hS : ∀ m, S m → S' m) : a.Fits p own S' n := by
  cases a with
  | shift m => exact ⟨h.1, h.2.1, hS m h.2.2⟩
  | reduce rule count aliases again => exact ⟨h.1, h.2.1, fun m hm => hS m (h.2.2 m hm)⟩
  | extra => exact h
  | accept => exact h
  | recover => exact h

theorem State.Fits.mono {p : Productions} {own : Role} {S S' F F' : Nat → Prop} {s : State}
    (h : s.Fits p own S F) (hS : ∀ m, S m → S' m) (hF : ∀ m, F m → F' m) : s.Fits p own S' F' :=
  ⟨fun n a ha => (h.action n a ha).mono hS, fun r m hm hne =>
    ⟨(h.goto r m hm hne).1, fun hr => hF m ((h.goto r m hm hne).2.1 hr),
      fun hr => hS m ((h.goto r m hm hne).2.2 hr)⟩⟩

/-! ## Kernels -/

/-- Adding an item keeps what holds of all items, whatever may follow them. -/
theorem Kernel.mem_add {Q : Nat → NatSet → Prop} (hor : ∀ {i f f'}, Q i f → Q i f' → Q i (f ||| f'))
    {k : Kernel} (hk : ∀ x ∈ k, Q x.1 x.2) {item : Nat} {follow : NatSet} (hi : Q item follow) :
    ∀ x ∈ Kernel.add item follow k, Q x.1 x.2 := by
  induction k with
  | nil =>
    intro x hx
    rw [List.mem_singleton.mp hx]
    exact hi
  | cons y k ih =>
    obtain ⟨j, f⟩ := y
    have hj : Q j f := hk (j, f) (List.mem_cons_self ..)
    have hk' : ∀ x ∈ k, Q x.1 x.2 := fun x hx => hk x (List.mem_cons_of_mem _ hx)
    intro x hx
    rw [Kernel.add] at hx
    split at hx
    · rcases List.mem_cons.mp hx with rfl | hx
      · exact hi
      · exact hk x hx
    · split at hx
      · rename_i heq
        subst heq
        rcases List.mem_cons.mp hx with rfl | hx
        · exact hor hj hi
        · exact hk' x hx
      · rcases List.mem_cons.mp hx with rfl | hx
        · exact hj
        · exact ih hk' x hx

namespace Items

/-- The kernels that a state leads to are made of its items with one more step read. -/
theorem mem_successors {t : Items} {closure : List (Nat × NatSet)} {symbol : Nat}
    {Q : Nat → NatSet → Prop} (hor : ∀ {i f f'}, Q i f → Q i f' → Q i (f ||| f'))
    (hc : ∀ x ∈ closure, ∀ s rest, (t.item x.1).rest = s :: rest → s.symbol = symbol →
      Q (t.next.getD x.1 0) x.2) :
    ∀ y ∈ (t.successors closure).getD symbol [], Q y.1 y.2 := by
  refine List.foldlRecOn (motive := fun (succ : Array Kernel) =>
    ∀ y ∈ succ.getD symbol [], Q y.1 y.2) _ _ ?_ fun succ hsucc x hx => ?_
  · intro y hy
    rw [Array.getD_eq_getD_getElem?, Array.getElem?_replicate] at hy
    split at hy <;> exact absurd hy (by simp)
  · obtain ⟨i, follow⟩ := x
    simp only
    split
    · exact hsucc
    · rename_i s rest hrest
      intro y hy
      rw [Array.getD_eq_getD_getElem?, Array.getElem?_modify] at hy
      rw [Array.getD_eq_getD_getElem?] at hsucc
      split at hy
      · rename_i hs
        cases hk : succ[symbol]? with
        | none =>
          rw [hk] at hy
          exact absurd hy (by simp)
        | some k =>
          rw [hk] at hy hsucc
          exact Kernel.mem_add hor hsucc (hc _ hx s rest hrest hs) y hy
      · exact hsucc y hy

/-- All items of a state are in its kernel or unread alternatives. -/
theorem mem_closure {t : Items} {k : Kernel} {x : Nat × NatSet} (h : x ∈ t.closure k) :
    x ∈ k ∨ ∃ r < t.grammar.families.size, x.1 ∈ t.starts.getD r [] := by
  rcases List.mem_append.mp h with h | h
  · exact .inl h
  · obtain ⟨r, hr, hx⟩ := List.mem_flatMap.mp h
    refine .inr ⟨r, List.mem_range.mp hr, ?_⟩
    simp only at hx
    split at hx
    · exact absurd hx (by simp)
    · obtain ⟨i, hi, rfl⟩ := List.mem_map.mp hx
      exact hi

/-- Where no step is left to read, nothing can come next. -/
theorem mem_of_mem_closure {t : Items} {k : Kernel} (h : ∀ x ∈ k, (t.item x.1).rest = [])
    {x : Nat × NatSet} (hx : x ∈ t.closure k) : x ∈ k := by
  rcases List.mem_append.mp hx with hx | hx
  · exact hx
  · obtain ⟨r, hr, hx⟩ := List.mem_flatMap.mp hx
    simp only at hx
    split at hx
    · exact absurd hx (by simp)
    · rename_i hne
      refine absurd (List.foldlRecOn (motive := fun (follows : Array NatSet) => follows.getD r 0 = 0)
        _ _ ?_ fun follows hf y hy => ?_) hne
      · rw [Array.getD_eq_getD_getElem?, Array.getElem?_replicate]
        split <;> rfl
      · rw [h y hy]
        exact hf

/-- A completed item that wins is one of the items, and the terminal may follow it. -/
theorem completed?_spec {t : Items} {closure : List (Nat × NatSet)} {terminal i : Nat}
    (h : t.completed? closure terminal = some i) :
    ∃ follow, (i, follow) ∈ closure ∧ (t.item i).rest = [] ∧ NatSet.mem terminal follow = true := by
  suffices hinv : ∀ i, t.completed? closure terminal = some i →
      ∃ follow, (i, follow) ∈ closure ∧ (t.item i).rest = [] ∧ NatSet.mem terminal follow = true from
    hinv i h
  refine List.foldlRecOn (motive := fun (best : Option Nat) => ∀ i, best = some i →
    ∃ follow, (i, follow) ∈ closure ∧ (t.item i).rest = [] ∧ NatSet.mem terminal follow = true) _ _
    (by simp) fun best hbest x hx => ?_
  obtain ⟨j, follow⟩ := x
  simp only
  split
  · rename_i hcond
    simp only [Bool.and_eq_true, List.isEmpty_iff] at hcond
    have hj : ∀ i, some j = some i →
        ∃ follow, (i, follow) ∈ closure ∧ (t.item i).rest = [] ∧ NatSet.mem terminal follow = true := by
      intro i hi
      obtain rfl := Option.some.inj hi
      exact ⟨follow, hx, hcond.1, hcond.2⟩
    split
    · split
      · exact hj
      · exact hbest
    · exact hj
  · exact hbest

/-- The role of a state, by the items it was made for. -/
def roleOf (t : Items) : List Nat → Role
  | [] => .error
  | i :: _ =>
    if (t.item i).rule = t.grammar.wholeText ∧ (t.item i).rest = [] then .final else .plain

end Items

namespace NatSet

theorem eq_of_mem_single {i j : Nat} (h : mem i (single j) = true) : i = j := by
  rw [mem, single, Nat.one_shiftLeft, Nat.testBit_two_pow] at h
  exact (of_decide_eq_true h).symm

end NatSet

namespace Productions

variable {p : Productions}

/-! ## Kinds of kernels -/

theorem alternativesOf_wholeText : p.alternativesOf p.wholeText = [[⟨p.ruleSymbol 0, none⟩]] := by
  rw [alternativesOf, if_pos rfl]

theorem exists_family {r : Nat} {steps : List Step} (hr : r ≠ p.wholeText)
    (h : steps ∈ p.alternativesOf r) : ∃ f, p.families[r]? = some f ∧ steps ∈ f.alternatives := by
  rw [alternativesOf, if_neg hr, Array.getD_eq_getD_getElem?] at h
  cases hf : p.families[r]? with
  | none =>
    rw [hf] at h
    exact absurd (show steps ∈ [] from h) (by simp)
  | some f =>
    rw [hf] at h
    exact ⟨f, rfl, h⟩

theorem endSymbol_ne_ruleSymbol (r : Nat) : p.endSymbol ≠ p.ruleSymbol r := by
  unfold endSymbol ruleSymbol terminalCount
  omega

/-- The number stands for an alternative of a rule of the grammar. -/
def Inside (p : Productions) (i : Nat) : Prop :=
  ∃ r steps n, r ≠ p.wholeText ∧ p.Stands i r steps n

/-- The number stands for a whole text, in front of it or behind it; only its end may follow. -/
def Outside (p : Productions) (d i : Nat) (follow : NatSet) : Prop :=
  (∃ steps, p.Stands i p.wholeText steps d) ∧ follow = .single p.endSymbol

/-- The items of a kernel are all inside, all in front of a whole text, or all behind one. -/
inductive KernelOk (p : Productions) (k : Kernel) : Prop
  | inside : (∀ x ∈ k, p.Inside x.1) → KernelOk p k
  | outside (d : Nat) : (∀ x ∈ k, p.Outside d x.1 x.2) → KernelOk p k

theorem Outside.rest {d i : Nat} {follow : NatSet} (h : p.Outside d i follow) :
    (p.toItems.item i).rest = [⟨p.ruleSymbol 0, none⟩] ∧ d = 0 ∨
      (p.toItems.item i).rest = [] ∧ d = 1 := by
  obtain ⟨⟨steps, hs⟩, -⟩ := h
  have hmem := hs.mem
  rw [alternativesOf_wholeText, List.mem_singleton] at hmem
  have hle := hs.le
  rw [hs.item, Item.rest_ofSteps, hmem]
  rw [hmem, List.length_singleton] at hle
  obtain rfl | rfl : d = 0 ∨ d = 1 := by omega
  · exact .inl ⟨rfl, rfl⟩
  · exact .inr ⟨rfl, rfl⟩

theorem Outside.rule {d i : Nat} {follow : NatSet} (h : p.Outside d i follow) :
    (p.toItems.item i).rule = p.wholeText := by
  obtain ⟨⟨steps, hs⟩, -⟩ := h
  rw [hs.item]
  rfl

theorem Inside.rule_ne {i : Nat} (h : p.Inside i) : (p.toItems.item i).rule ≠ p.wholeText := by
  obtain ⟨r, steps, n, hr, hs⟩ := h
  rw [hs.item]
  exact hr

/-- What an item inside reads next. -/
theorem Inside.next (hp : p.Tidy) {i : Nat} (h : p.Inside i) {s : Step} {rest : List Step}
    (hrest : (p.toItems.item i).rest = s :: rest) :
    s.symbol ≠ p.ruleSymbol 0 ∧ s.symbol ≠ p.endSymbol ∧ p.Inside (p.toItems.next.getD i 0) := by
  obtain ⟨r, steps, n, hr, hs⟩ := h
  rw [hs.item, Item.rest_ofSteps] at hrest
  have hlt : n < steps.length := Nat.lt_of_not_le fun hge => by
    rw [List.drop_eq_nil_of_le hge] at hrest
    exact absurd hrest (by simp)
  obtain ⟨f, hf, hsteps⟩ := exists_family hr hs.mem
  have hmem : s ∈ steps := List.mem_of_mem_drop (hrest ▸ List.mem_cons_self ..)
  obtain ⟨h₁, h₂⟩ := hp.steps f (Array.mem_of_getElem? hf) steps hsteps s hmem
  exact ⟨h₁, h₂, r, steps, n + 1, hr, hs.next hlt⟩

/-- All items of a state are inside, except for those that it was made for. -/
theorem KernelOk.closure {k : Kernel} (hk : p.KernelOk k) {x : Nat × NatSet}
    (hx : x ∈ p.toItems.closure k) : p.Inside x.1 ∨ ∃ d, p.Outside d x.1 x.2 ∧
      ∀ y ∈ k, p.Outside d y.1 y.2 := by
  rcases Items.mem_closure hx with hx | ⟨r, hr, hx⟩
  · cases hk with
    | inside h => exact .inl (h x hx)
    | outside d h => exact .inr ⟨d, h x hx, h⟩
  · obtain ⟨steps, hs⟩ := stands_of_mem_starts hx
    exact .inl ⟨r, steps, 0, Nat.ne_of_lt hr, hs⟩

/-- A kernel from which something can be read, or in which a rule can be completed, is of a plain
state. -/
theorem KernelOk.role_plain {k : Kernel} (hk : p.KernelOk k) {x : Nat × NatSet}
    (hx : x ∈ p.toItems.closure k) (h : (p.toItems.item x.1).rest ≠ [] ∨ p.Inside x.1) :
    p.toItems.roleOf (k.map (·.1)) = .plain := by
  cases k with
  | nil => exact absurd (Items.mem_of_mem_closure (by simp) hx) (by simp)
  | cons y k =>
    rw [List.map_cons, Items.roleOf, if_neg]
    rintro ⟨hrule, hrest⟩
    cases hk with
    | inside hin => exact (hin y (List.mem_cons_self ..)).rule_ne hrule
    | outside d hout =>
      -- all items of the kernel are behind a whole text, so there are no others
      obtain ⟨hr, -⟩ | ⟨-, rfl⟩ := (hout y (List.mem_cons_self ..)).rest
      · exact absurd (hr.symm.trans hrest) (by simp)
      · have hall : ∀ z ∈ y :: k, (p.toItems.item z.1).rest = [] := fun z hz =>
          (hout z hz).rest.elim (fun h => absurd h.2 (by simp)) And.left
        have hmem := Items.mem_of_mem_closure hall hx
        rcases h with h | h
        · exact h (hall x hmem)
        · exact h.rule_ne (hout x hmem).rule

/-- The kernel that a symbol leads to. -/
def successor (p : Productions) (k : Kernel) (symbol : Nat) : Kernel :=
  (p.toItems.successors (p.toItems.closure k)).getD symbol []

/-- A symbol leads somewhere only from a plain state, and the end of the text leads nowhere. -/
theorem KernelOk.of_successor (hp : p.Tidy) {k : Kernel} (hk : p.KernelOk k) {symbol : Nat}
    (hne : p.successor k symbol ≠ []) :
    p.toItems.roleOf (k.map (·.1)) = .plain ∧ symbol ≠ p.endSymbol := by
  obtain ⟨y, hy⟩ := List.exists_mem_of_ne_nil _ hne
  obtain ⟨x, hx, s, rest, hrest, rfl⟩ := Items.mem_successors
    (Q := fun _ _ => ∃ x ∈ p.toItems.closure k, ∃ s rest,
      (p.toItems.item x.1).rest = s :: rest ∧ s.symbol = symbol)
    (fun h _ => h) (fun x hx s rest hrest hs => ⟨x, hx, s, rest, hrest, hs⟩) y hy
  refine ⟨hk.role_plain hx (.inl (by simp [hrest])), ?_⟩
  rcases hk.closure hx with hin | ⟨d, hout, -⟩
  · exact (hin.next hp hrest).2.1
  · obtain ⟨hr, -⟩ | ⟨hr, -⟩ := hout.rest
    · rw [hr] at hrest
      obtain ⟨rfl, -⟩ := List.cons.inj hrest
      exact (endSymbol_ne_ruleSymbol 0).symm
    · exact absurd (hr.symm.trans hrest) (by simp)

/-- The rule of whole texts leads behind one, everything else stays inside. -/
theorem KernelOk.successor (hp : p.Tidy) {k : Kernel} (hk : p.KernelOk k) (symbol : Nat) :
    (symbol = p.ruleSymbol 0 → ∀ y ∈ p.successor k symbol, p.Outside 1 y.1 y.2) ∧
      (symbol ≠ p.ruleSymbol 0 → ∀ y ∈ p.successor k symbol, p.Inside y.1) := by
  constructor
  · intro hsymbol
    refine Items.mem_successors (fun h h' => ⟨h.1, ?_⟩) fun x hx s rest hrest hs => ?_
    · rw [h.2, h'.2, Nat.or_self]
    · rcases hk.closure hx with hin | ⟨d, hout, -⟩
      · exact absurd (hs.trans hsymbol) (hin.next hp hrest).1
      · obtain ⟨hr, rfl⟩ | ⟨hr, -⟩ := hout.rest
        · obtain ⟨⟨steps, hstands⟩, hfollow⟩ := hout
          refine ⟨⟨steps, hstands.next ?_⟩, hfollow⟩
          have hmem := hstands.mem
          rw [alternativesOf_wholeText, List.mem_singleton] at hmem
          rw [hmem]
          exact Nat.zero_lt_one
        · exact absurd (hr.symm.trans hrest) (by simp)
  · intro hsymbol
    refine Items.mem_successors (Q := fun i _ => p.Inside i) (fun h _ => h)
      fun x hx s rest hrest hs => ?_
    rcases hk.closure hx with hin | ⟨d, hout, -⟩
    · exact (hin.next hp hrest).2.2
    · obtain ⟨hr, -⟩ | ⟨hr, -⟩ := hout.rest
      · rw [hr] at hrest
        obtain ⟨rfl, -⟩ := List.cons.inj hrest
        exact absurd hs.symm hsymbol
      · exact absurd (hr.symm.trans hrest) (by simp)

/-! ## Actions -/

/-- Completing an item fits the role of the state. -/
theorem completion_fits {k : Kernel} (hk : p.KernelOk k) {i symbol : Nat} {follow : NatSet}
    (hx : (i, follow) ∈ p.toItems.closure k) (hrest : (p.toItems.item i).rest = [])
    (hmem : NatSet.mem symbol follow = true) (S : Nat → Prop) :
    (p.toItems.completion i).Fits p (p.toItems.roleOf (k.map (·.1))) S symbol := by
  rw [Items.completion]
  rcases hk.closure hx with hin | ⟨d, hout, hall⟩
  · have hplain := hk.role_plain hx (.inr hin)
    simp only [if_neg (show (p.toItems.item i).rule ≠ p.toItems.grammar.wholeText from hin.rule_ne)]
    obtain ⟨r, steps, n, hr, hs⟩ := hin
    rw [hs.item, Item.rest_ofSteps, List.drop_eq_nil_iff] at hrest
    obtain rfl : n = steps.length := Nat.le_antisymm hs.le hrest
    obtain ⟨f, hf, hsteps⟩ := exists_family hr hs.mem
    refine ⟨hplain, ⟨f, steps, ?_, hsteps, ?_, ?_⟩, by simp⟩
    · rw [hs.item]
      exact hf
    · rw [hs.item]
      rfl
    · rw [hs.item]
      simp [Item.ofSteps]
  · have hrule := hout.rule
    simp only [if_pos (show (p.toItems.item i).rule = p.toItems.grammar.wholeText from hrule)]
    obtain ⟨hr, -⟩ | ⟨-, rfl⟩ := hout.rest
    · exact absurd (hr.symm.trans hrest) (by simp)
    · refine ⟨?_, NatSet.eq_of_mem_single (hout.2 ▸ hmem)⟩
      cases k with
      | nil => exact absurd (Items.mem_of_mem_closure (by simp) hx) (by simp)
      | cons y k =>
        have hy := hall y (List.mem_cons_self ..)
        have hrest' : (p.toItems.item y.1).rest = [] :=
          hy.rest.elim (fun h => absurd h.2 (by simp)) And.left
        exact if_pos ⟨hy.rule, hrest'⟩

/-- Deciding between a completed item and the next symbol. -/
theorem settle_fits {k : Kernel} (hk : p.KernelOk k) {i symbol next : Nat} {follow : NatSet}
    {S : Nat → Prop} (hx : (i, follow) ∈ p.toItems.closure k)
    (hrest : (p.toItems.item i).rest = []) (hmem : NatSet.mem symbol follow = true)
    (hplain : p.toItems.roleOf (k.map (·.1)) = .plain) (hend : symbol ≠ p.endSymbol) (hS : S next) :
    (p.toItems.settle k symbol i next).Fits p (p.toItems.roleOf (k.map (·.1))) S symbol := by
  have hcomplete := completion_fits hk hx hrest hmem S
  have hshift : (Action.shift next).Fits p (p.toItems.roleOf (k.map (·.1))) S symbol :=
    ⟨hplain, hend, hS⟩
  unfold Items.settle
  simp only
  split
  · split
    · rename_i heq
      rw [heq] at hcomplete
      refine ⟨hcomplete.1, hcomplete.2.1, fun m hm => ?_⟩
      exact Option.some.inj hm ▸ hS
    · exact hcomplete
  · split
    · exact hshift
    · split
      · exact hcomplete
      · split
        · exact hcomplete
        · exact hshift

/-! ## The construction -/

/-- State `m` was made for a kernel of a role. -/
def Leads (p : Productions) (kernels : Array Kernel) (role : Role) (m : Nat) : Prop :=
  ∃ k, kernels[m]? = some k ∧ p.toItems.roleOf (k.map (·.1)) = role

/-- A state that does nothing. -/
def Blank (s : State) : Prop := (∀ n, s.action? n = none) ∧ ∀ r, s.gotos.getD r 0 = 0

theorem Blank.fits {s : State} (h : Blank s) (own : Role) (S F : Nat → Prop) : s.Fits p own S F :=
  ⟨fun n a ha => absurd ((h.1 n).symm.trans ha) (by simp), fun r m hm hne =>
    absurd (hm.symm.trans (h.2 r)) hne⟩

/-- The invariant of the construction. Each number of a core stands for one list of items. -/
structure Sane (p : Productions) (coreOf : Nat → List Nat) (c : Construction) : Prop where
  size : c.states.size = c.kernels.size
  kernel : ∀ (n : Nat) k, c.kernels[n]? = some k → p.KernelOk k
  state : ∀ (n : Nat) s k, c.states[n]? = some s → c.kernels[n]? = some k →
    s.Fits p (p.toItems.roleOf (k.map (·.1))) (p.Leads c.kernels .plain) (p.Leads c.kernels .final) ∧
      coreOf s.core = k.map (·.1) ∧ s.core < c.coreCount
  cores : ∀ key core id, (core, id) ∈ c.cores.getD key [] → coreOf id = core ∧ id < c.coreCount

/-- What a later construction keeps of an earlier one. -/
structure Extended (coreOf coreOf' : Nat → List Nat) (c c' : Construction) : Prop where
  kernels : ∀ (n : Nat) k, c.kernels[n]? = some k → c'.kernels[n]? = some k
  coreOf : ∀ id < c.coreCount, coreOf' id = coreOf id
  coreCount : c.coreCount ≤ c'.coreCount

theorem Extended.refl (coreOf : Nat → List Nat) (c : Construction) : Extended coreOf coreOf c c :=
  ⟨fun _ _ h => h, fun _ _ => rfl, Nat.le_refl _⟩

theorem Extended.trans {f g h : Nat → List Nat} {c c' c'' : Construction}
    (h₁ : Extended f g c c') (h₂ : Extended g h c' c'') : Extended f h c c'' :=
  ⟨fun n k hk => h₂.kernels n k (h₁.kernels n k hk), fun id hid =>
    (h₂.coreOf id (Nat.lt_of_lt_of_le hid h₁.coreCount)).trans (h₁.coreOf id hid),
    Nat.le_trans h₁.coreCount h₂.coreCount⟩

theorem Extended.leads {f g : Nat → List Nat} {c c' : Construction} (h : Extended f g c c')
    {role : Role} {m : Nat} (hm : p.Leads c.kernels role m) : p.Leads c'.kernels role m := by
  obtain ⟨k, hk, hrole⟩ := hm
  exact ⟨k, h.kernels m k hk, hrole⟩

/-- A number for a core, which is new if there is none yet. -/
def coreFor (c : Construction) (key : Nat) (core : List Nat) : Nat × Construction :=
  match (c.cores.getD key []).find? (·.1 == core) with
  | some (_, id) => (id, c)
  | none =>
    (c.coreCount,
      { c with
        cores := c.cores.modify key ((core, c.coreCount) :: ·)
        coreCount := c.coreCount + 1 })

theorem coreFor_spec {coreOf : Nat → List Nat} {c : Construction} (hc : p.Sane coreOf c) (key : Nat)
    (core : List Nat) : ∃ coreOf', p.Sane coreOf' (coreFor c key core).2 ∧
      Extended coreOf coreOf' c (coreFor c key core).2 ∧
      (coreFor c key core).2.states = c.states ∧ (coreFor c key core).2.kernels = c.kernels ∧
      coreOf' (coreFor c key core).1 = core ∧
      (coreFor c key core).1 < (coreFor c key core).2.coreCount := by
  unfold coreFor
  split
  · rename_i core' id hfind
    obtain ⟨hcore, hid⟩ := hc.cores key core' id (List.mem_of_find?_eq_some hfind)
    have heq : core' = core := by simpa using List.find?_some hfind
    exact ⟨coreOf, hc, .refl coreOf c, rfl, rfl, hcore.trans heq, hid⟩
  · -- the new number is one that was not used
    have hold : ∀ id < c.coreCount, (fun id => if id = c.coreCount then core else coreOf id) id =
        coreOf id := fun id hid => if_neg (Nat.ne_of_lt hid)
    refine ⟨fun id => if id = c.coreCount then core else coreOf id,
      ⟨hc.size, hc.kernel, fun n s k hs hk => ?_, fun key' core' id hmem => ?_⟩,
      ⟨fun _ _ h => h, hold, Nat.le_succ _⟩, rfl, rfl, if_pos rfl, Nat.lt_succ_self _⟩
    · obtain ⟨hfits, hcore, hlt⟩ := hc.state n s k hs hk
      exact ⟨hfits, (hold _ hlt).trans hcore, Nat.lt_succ_of_lt hlt⟩
    · have hmem' : (core', id) = (core, c.coreCount) ∨ (core', id) ∈ c.cores.getD key' [] := by
        rw [Array.getD_eq_getD_getElem?, Array.getElem?_modify] at hmem
        rw [Array.getD_eq_getD_getElem?]
        split at hmem
        · cases hl : c.cores[key']? with
          | none =>
            rw [hl] at hmem
            exact absurd hmem (by simp)
          | some l =>
            rw [hl] at hmem
            exact List.mem_cons.mp hmem
        · exact .inr hmem
      rcases hmem' with heq | hmem'
      · obtain ⟨rfl, rfl⟩ := Prod.mk.inj heq
        exact ⟨if_pos rfl, Nat.lt_succ_self _⟩
      · obtain ⟨hcore, hlt⟩ := hc.cores key' core' id hmem'
        exact ⟨(hold id hlt).trans hcore, Nat.lt_succ_of_lt hlt⟩

/-- A kernel that was not there gets a state of its own. -/
theorem Sane.push {coreOf : Nat → List Nat} {c : Construction} (hc : p.Sane coreOf c) {k : Kernel}
    (hk : p.KernelOk k) {s : State} (hs : Blank s) (hcore : coreOf s.core = k.map (·.1))
    (hlt : s.core < c.coreCount) (byFirst : Array (List Nat)) :
    p.Sane coreOf { c with states := c.states.push s, kernels := c.kernels.push k, byFirst } ∧
      Extended coreOf coreOf c
        { c with states := c.states.push s, kernels := c.kernels.push k, byFirst } := by
  have hext : Extended coreOf coreOf c
      { c with states := c.states.push s, kernels := c.kernels.push k, byFirst } := by
    refine ⟨fun n k' hk' => ?_, fun _ _ => rfl, Nat.le_refl _⟩
    show (c.kernels.push k)[n]? = some k'
    rw [Array.getElem?_push, if_neg, hk']
    have := (Array.getElem?_eq_some_iff.mp hk').1
    omega
  refine ⟨⟨?_, fun n k' hk' => ?_, fun n s' k' hs' hk' => ?_, hc.cores⟩, hext⟩
  · simp [hc.size]
  · rw [Array.getElem?_push] at hk'
    split at hk'
    · exact Option.some.inj hk' ▸ hk
    · exact hc.kernel n k' hk'
  · rw [Array.getElem?_push, hc.size] at hs'
    rw [Array.getElem?_push] at hk'
    split at hs'
    · rename_i hn
      rw [if_pos hn] at hk'
      obtain rfl := Option.some.inj hs'
      obtain rfl := Option.some.inj hk'
      exact ⟨hs.fits _ _ _, hcore, hlt⟩
    · rename_i hn
      rw [if_neg hn] at hk'
      obtain ⟨hfits, hcore', hlt'⟩ := hc.state n s' k' hs' hk'
      exact ⟨hfits.mono (fun m => hext.leads) fun m => hext.leads, hcore', hlt'⟩

/-- The state with a kernel, which is looked for under a key. -/
def internAt (c : Construction) (blank : State) (k : Kernel) (key : Nat) : Nat × Construction :=
  match (c.byFirst.getD key []).find? (fun n => c.kernels.getD n [] == k) with
  | some n => (n, c)
  | none =>
    let (coreId, c') := coreFor c key (k.map (·.1))
    (c.states.size,
      { c' with
        states := c'.states.push { blank with core := coreId }
        kernels := c'.kernels.push k
        byFirst := c'.byFirst.modify key (c.states.size :: ·) })

theorem intern_eq (c : Construction) (blank : State) (k : Kernel) :
    ∃ key, c.intern blank k = internAt c blank k key := ⟨_, rfl⟩

/-- The state with a kernel. -/
theorem intern_spec {coreOf : Nat → List Nat} {c : Construction} (hc : p.Sane coreOf c)
    {blank : State} (hblank : Blank blank) {k : Kernel} (hk : p.KernelOk k) :
    ∃ coreOf', p.Sane coreOf' (c.intern blank k).2 ∧
      Extended coreOf coreOf' c (c.intern blank k).2 ∧
      (k ≠ [] → (c.intern blank k).2.kernels[(c.intern blank k).1]? = some k) := by
  obtain ⟨key, heq⟩ := intern_eq c blank k
  rw [heq]
  unfold internAt
  split
  · rename_i n hfind
    refine ⟨coreOf, hc, .refl coreOf c, fun hne => ?_⟩
    have hget : c.kernels.getD n [] = k := by simpa using List.find?_some hfind
    rw [Array.getD_eq_getD_getElem?] at hget
    cases hkn : c.kernels[n]? with
    | none =>
      rw [hkn] at hget
      exact absurd hget.symm hne
    | some k' =>
      rw [hkn] at hget
      exact congrArg some hget
  · obtain ⟨coreOf', hc', hext, hstates, hkernels, hcore, hlt⟩ := coreFor_spec hc key (k.map (·.1))
    obtain ⟨hsane, hext'⟩ := hc'.push hk (s := { blank with core := (coreFor c key (k.map (·.1))).1 })
      hblank hcore hlt ((coreFor c key (k.map (·.1))).2.byFirst.modify key (c.states.size :: ·))
    refine ⟨coreOf', hsane, hext.trans hext', fun _ => ?_⟩
    show ((coreFor c key (k.map (·.1))).2.kernels.push k)[c.states.size]? = some k
    rw [hkernels, hc.size, Array.getElem?_push, if_pos rfl]

/-- The kernel that a symbol leads to is one of a plain state, or of one behind a whole text. -/
theorem successor_role (hp : p.Tidy) {k : Kernel} (hk : p.KernelOk k) {symbol : Nat}
    (hne : p.successor k symbol ≠ []) :
    p.KernelOk (p.successor k symbol) ∧
      (symbol = p.ruleSymbol 0 → p.toItems.roleOf ((p.successor k symbol).map (·.1)) = .final) ∧
      (symbol ≠ p.ruleSymbol 0 → p.toItems.roleOf ((p.successor k symbol).map (·.1)) = .plain) := by
  obtain ⟨hfinal, hplain⟩ := hk.successor hp symbol
  obtain ⟨y, rest, heq⟩ := List.exists_cons_of_ne_nil hne
  rw [heq] at hfinal hplain ⊢
  refine ⟨?_, fun hs => ?_, fun hs => ?_⟩
  · by_cases hs : symbol = p.ruleSymbol 0
    · exact .outside 1 (hfinal hs)
    · exact .inside (hplain hs)
  · have hy := hfinal hs y (List.mem_cons_self ..)
    exact if_pos ⟨hy.rule, hy.rest.elim (fun h => absurd h.2 (by simp)) And.left⟩
  · exact if_neg fun h => (hplain hs y (List.mem_cons_self ..)).rule_ne h.1

end Productions

section

variable {p : Productions} {own : Role} {S F : Nat → Prop} {s : State}

theorem State.Fits.setAction (h : s.Fits p own S F) {symbol : Nat} {action : Option Action}
    (ha : ∀ a, action = some a → a.Fits p own S symbol) :
    State.Fits p own S F { s with actions := s.actions.setIfInBounds symbol action } :=
  fits_iff_all.mpr ((fits_iff_all.mp h).setAction ha)

theorem State.Fits.setGoto (h : s.Fits p own S F) {r next : Nat} (hown : own = .plain)
    (hF : r = 0 → F next) (hS : r ≠ 0 → S next) :
    State.Fits p own S F { s with gotos := s.gotos.setIfInBounds r next } :=
  fits_iff_all.mpr ((fits_iff_all.mp h).setGoto ⟨hown, hF, hS⟩)

end

namespace Productions

variable {p : Productions}

/-- The state that a symbol leads to; 0 if there is none. -/
def internNext (p : Productions) (blank : State) (c : Construction) (k : Kernel) (symbol : Nat) :
    Nat × Construction :=
  match p.successor k symbol with
  | [] => (0, c)
  | k' => c.intern blank k'

theorem internNext_spec (hp : p.Tidy) {coreOf : Nat → List Nat} {c : Construction}
    (hc : p.Sane coreOf c) {blank : State} (hblank : Blank blank) {k : Kernel} (hk : p.KernelOk k)
    (symbol : Nat) :
    ∃ coreOf', p.Sane coreOf' (p.internNext blank c k symbol).2 ∧
      Extended coreOf coreOf' c (p.internNext blank c k symbol).2 ∧
      ((p.internNext blank c k symbol).1 ≠ 0 →
        p.toItems.roleOf (k.map (·.1)) = .plain ∧ symbol ≠ p.endSymbol ∧
        (symbol = p.ruleSymbol 0 →
          p.Leads (p.internNext blank c k symbol).2.kernels .final
            (p.internNext blank c k symbol).1) ∧
        (symbol ≠ p.ruleSymbol 0 →
          p.Leads (p.internNext blank c k symbol).2.kernels .plain
            (p.internNext blank c k symbol).1)) := by
  by_cases hne : p.successor k symbol = []
  · have heq : p.internNext blank c k symbol = (0, c) := by rw [internNext, hne]
    rw [heq]
    exact ⟨coreOf, hc, .refl coreOf c, fun h => absurd rfl h⟩
  · have heq : p.internNext blank c k symbol = c.intern blank (p.successor k symbol) := by
      rw [internNext]
      split
      · rename_i h
        exact absurd h hne
      · rfl
    rw [heq]
    obtain ⟨hkernel, hfinal, hplain⟩ := successor_role hp hk hne
    obtain ⟨coreOf', hsane, hext, hget⟩ := intern_spec hc hblank hkernel
    obtain ⟨hrole, hend⟩ := hk.of_successor hp hne
    exact ⟨coreOf', hsane, hext, fun _ => ⟨hrole, hend, fun hs => ⟨_, hget hne, hfinal hs⟩,
      fun hs => ⟨_, hget hne, hplain hs⟩⟩⟩

/-- What is found out about one symbol. -/
def expandSymbol (p : Productions) (blank : State) (k : Kernel) (acc : Construction × State)
    (symbol : Nat) : Construction × State :=
  let (next, c) := p.internNext blank acc.1 k symbol
  match p.rule? symbol with
  | some r =>
    (c, if next = 0 then acc.2 else { acc.2 with gotos := acc.2.gotos.setIfInBounds r next })
  | none =>
    let action :=
      match p.toItems.completed? ((p.toItems.closure k).filter fun (i, _) =>
          (p.toItems.item i).rest.isEmpty) symbol with
      | some i => some (if next = 0 then p.toItems.completion i else p.toItems.settle k symbol i next)
      | none =>
        if next ≠ 0 then some (.shift next)
        else if p.extras.contains symbol then some .extra
        else none
    (c, { acc.2 with actions := acc.2.actions.setIfInBounds symbol action })

theorem expand_eq (blank : State) (c : Construction) (n : Nat) :
    p.toItems.expand blank c n =
      let r := (List.range p.symbolCount).foldl (p.expandSymbol blank (c.kernels.getD n []))
        (c, c.states.getD n blank)
      { r.1 with states := r.1.states.setIfInBounds n r.2 } := rfl

/-- The number of a symbol tells its rule. -/
theorem rule?_eq_some_iff {symbol r : Nat} : p.rule? symbol = some r ↔ symbol = p.ruleSymbol r := by
  unfold rule? ruleSymbol
  split
  · rw [Option.some.injEq]
    omega
  · constructor
    · intro h
      exact absurd h (by simp)
    · omega

/-- One symbol keeps the invariant, and what is found out fits the role of the state. -/
theorem expandSymbol_spec (hp : p.Tidy) {coreOf : Nat → List Nat} {acc : Construction × State}
    (hc : p.Sane coreOf acc.1) {blank : State} (hblank : Blank blank) {k : Kernel}
    (hk : p.KernelOk k)
    (hs : acc.2.Fits p (p.toItems.roleOf (k.map (·.1))) (p.Leads acc.1.kernels .plain)
      (p.Leads acc.1.kernels .final)) (symbol : Nat) :
    ∃ coreOf', p.Sane coreOf' (p.expandSymbol blank k acc symbol).1 ∧
      Extended coreOf coreOf' acc.1 (p.expandSymbol blank k acc symbol).1 ∧
      (p.expandSymbol blank k acc symbol).2.Fits p (p.toItems.roleOf (k.map (·.1)))
        (p.Leads (p.expandSymbol blank k acc symbol).1.kernels .plain)
        (p.Leads (p.expandSymbol blank k acc symbol).1.kernels .final) ∧
      (p.expandSymbol blank k acc symbol).2.core = acc.2.core := by
  obtain ⟨coreOf', hsane, hext, hnext⟩ := internNext_spec hp hc hblank hk symbol
  have hs' := hs.mono (fun m => hext.leads) fun m => hext.leads
  unfold expandSymbol
  generalize p.internNext blank acc.1 k symbol = r at hsane hext hnext hs'
  obtain ⟨next, c⟩ := r
  simp only at hsane hext hnext hs' ⊢
  cases hrule : p.rule? symbol with
  | some r =>
    have hzero : r = 0 ↔ symbol = p.ruleSymbol 0 := by
      rw [← rule?_eq_some_iff, hrule, Option.some.injEq]
    refine ⟨coreOf', hsane, hext, ?_, ?_⟩
    · simp only
      split
      · exact hs'
      · rename_i hne
        obtain ⟨hplain, -, hfinal, hother⟩ := hnext hne
        exact hs'.setGoto hplain (fun h => hfinal (hzero.mp h)) fun h => hother fun h' =>
          h (hzero.mpr h')
    · simp only
      split <;> rfl
  | none =>
    have hsymbol : symbol ≠ p.ruleSymbol 0 := by
      intro h
      rw [rule?_eq_some_iff.mpr h] at hrule
      exact absurd hrule (by simp)
    refine ⟨coreOf', hsane, hext, hs'.setAction fun a ha => ?_, rfl⟩
    split at ha
    · rename_i i hcompleted
      obtain ⟨follow, hmem, hrest, hfollow⟩ := Items.completed?_spec hcompleted
      have hmem := (List.mem_filter.mp hmem).1
      rw [← Option.some.inj ha]
      split
      · exact completion_fits hk hmem hrest hfollow _
      · rename_i hne
        obtain ⟨hplain, hend, -, hother⟩ := hnext hne
        exact settle_fits hk hmem hrest hfollow hplain hend (hother hsymbol)
    · split at ha
      · rename_i hne
        obtain ⟨hplain, hend, -, hother⟩ := hnext hne
        rw [← Option.some.inj ha]
        exact ⟨hplain, hend, hother hsymbol⟩
      · split at ha
        · rename_i hextra
          rw [← Option.some.inj ha]
          rintro rfl
          exact hp.extras (by simpa using hextra)
        · exact absurd ha (by simp)

/-- Finding out what a state does keeps the invariant. -/
theorem expand_spec (hp : p.Tidy) {coreOf : Nat → List Nat} {c : Construction}
    (hc : p.Sane coreOf c) {blank : State} (hblank : Blank blank) {n : Nat}
    (hn : n < c.states.size) :
    ∃ coreOf', p.Sane coreOf' (p.toItems.expand blank c n) ∧
      Extended coreOf coreOf' c (p.toItems.expand blank c n) := by
  obtain ⟨s, hs⟩ : ∃ s, c.states[n]? = some s := ⟨_, Array.getElem?_eq_getElem hn⟩
  obtain ⟨k, hk⟩ : ∃ k, c.kernels[n]? = some k := ⟨_, Array.getElem?_eq_getElem (hc.size ▸ hn)⟩
  have hkernel := hc.kernel n k hk
  obtain ⟨hfits, hcore, hlt⟩ := hc.state n s k hs hk
  rw [expand_eq]
  simp only [Array.getD_eq_getD_getElem?, hs, hk, Option.getD_some]
  obtain ⟨coreOf', hsane, hext, hfits', hcore'⟩ := List.foldlRecOn
    (motive := fun (acc : Construction × State) => ∃ coreOf', p.Sane coreOf' acc.1 ∧
      Extended coreOf coreOf' c acc.1 ∧
      acc.2.Fits p (p.toItems.roleOf (k.map (·.1))) (p.Leads acc.1.kernels .plain)
        (p.Leads acc.1.kernels .final) ∧ acc.2.core = s.core)
    (List.range p.symbolCount) (p.expandSymbol blank k) (b := (c, s))
    ⟨coreOf, hc, .refl coreOf c, hfits, rfl⟩
    fun acc ⟨coreOf₁, hsane₁, hext₁, hfits₁, hcore₁⟩ symbol _ => by
      obtain ⟨coreOf₂, hsane₂, hext₂, hfits₂, hcore₂⟩ :=
        expandSymbol_spec hp hsane₁ hblank hkernel hfits₁ symbol
      exact ⟨coreOf₂, hsane₂, hext₁.trans hext₂, hfits₂, hcore₂.trans hcore₁⟩
  generalize (List.range p.symbolCount).foldl (p.expandSymbol blank k) (c, s) = r at *
  refine ⟨coreOf', ⟨by simp [hsane.size], hsane.kernel, fun m s' k' hs' hk' => ?_, hsane.cores⟩,
    hext.kernels, hext.coreOf, hext.coreCount⟩
  rw [Array.getElem?_setIfInBounds] at hs'
  split at hs'
  · rename_i hm
    subst hm
    obtain rfl : k = k' := Option.some.inj ((hext.kernels n k hk).symm.trans hk')
    split at hs'
    · obtain rfl := Option.some.inj hs'
      rw [hcore']
      exact ⟨hfits', (hext.coreOf _ hlt).trans hcore, Nat.lt_of_lt_of_le hlt hext.coreCount⟩
    · exact absurd hs' (by simp)
  · exact hsane.state m s' k' hs' hk'

theorem expandFrom_spec (hp : p.Tidy) {blank : State} (hblank : Blank blank) (fuel n : Nat)
    {coreOf : Nat → List Nat} {c : Construction} (hc : p.Sane coreOf c) :
    ∃ coreOf', p.Sane coreOf' (p.toItems.expandFrom blank fuel n c) ∧
      Extended coreOf coreOf' c (p.toItems.expandFrom blank fuel n c) := by
  induction fuel generalizing n coreOf c with
  | zero => exact ⟨coreOf, hc, .refl coreOf c⟩
  | succ fuel ih =>
    rw [Items.expandFrom]
    split
    · rename_i hn
      obtain ⟨coreOf₁, hsane₁, hext₁⟩ := expand_spec hp hc hblank hn
      obtain ⟨coreOf₂, hsane₂, hext₂⟩ := ih (n + 1) hsane₁
      exact ⟨coreOf₂, hsane₂, hext₁.trans hext₂⟩
    · exact ⟨coreOf, hc, .refl coreOf c⟩

/-! ## The canonical automaton -/

/-- Roles for the states of an automaton, which all states fit. -/
structure Cast (p : Productions) (role : Nat → Role) (states : Array State) : Prop where
  error : role 0 = .error
  fits : ∀ (n : Nat) s, states[n]? = some s →
    s.Fits p (role n) (fun m => role m ≠ .final) fun m => m = 0 ∨ role m = .final

/-- A value that states have by their cores. The state for errors and states that do not exist have the
value `d`. -/
structure ByCore {α : Type} (d : α) (value ofCore : Nat → α) (states : Array State) : Prop where
  error : ofCore 0 = d
  core : ∀ (n : Nat) s, states[n]? = some s → value n = ofCore s.core
  absent : ∀ n, states.size ≤ n → value n = d

/-- States of one core play one role, and core 0 is that of errors. -/
abbrev CoreCast (role : Nat → Role) (roleOf : Nat → Role) (states : Array State) : Prop :=
  ByCore .error role roleOf states

/-- The construction with the state for errors alone. -/
def firstState (blank : State) (size : Nat) : Construction :=
  { states := #[{ blank with core := 0 }]
    kernels := #[[]]
    byFirst := (Array.replicate size []).modify 0 (0 :: ·)
    cores := (Array.replicate size []).modify 0 (([], 0) :: ·)
    coreCount := 1 }

theorem intern_nil (blank : State) (size : Nat) :
    (Construction.intern ⟨#[], #[], Array.replicate size [], Array.replicate size [], 0⟩ blank []).2 =
      firstState blank size := by
  have hget : ∀ {α : Type}, (Array.replicate size ([] : List α)).getD 0 [] = [] := by
    intro α
    rw [Array.getD_eq_getD_getElem?, Array.getElem?_replicate]
    split <;> rfl
  simp only [Construction.intern, hget, List.find?_nil]
  rfl

theorem firstState_sane {blank : State} (hblank : Blank blank) (size : Nat) :
    p.Sane (fun _ => []) (firstState blank size) := by
  refine ⟨rfl, fun n k hk => ?_, fun n s k hs hk => ?_, fun key core id hmem => ?_⟩
  · obtain rfl : k = [] := by simpa [firstState] using Array.mem_of_getElem? hk
    exact .inside (by simp)
  · obtain rfl : k = [] := by simpa [firstState] using Array.mem_of_getElem? hk
    obtain rfl : s = { blank with core := 0 } := by simpa [firstState] using Array.mem_of_getElem? hs
    have hs' : Blank { blank with core := 0 } := hblank
    exact ⟨hs'.fits _ _ _, rfl, Nat.zero_lt_one⟩
  · have hmem' : (core, id) = ([], 0) := by
      rw [firstState, Array.getD_eq_getD_getElem?, Array.getElem?_modify,
        Array.getElem?_replicate] at hmem
      split at hmem
      · split at hmem
        · simpa using hmem
        · exact absurd hmem (by simp)
      · split at hmem <;> exact absurd hmem (by simp)
    obtain ⟨rfl, rfl⟩ := Prod.mk.inj hmem'
    exact ⟨rfl, Nat.zero_lt_one⟩

/-- The state that the automaton of a grammar starts out with. -/
def blankState (p : Productions) : State :=
  { actions := Array.replicate p.terminalCount none
    gotos := Array.replicate p.families.size 0 }

theorem blank_blankState (p : Productions) : Blank (blankState p) := by
  refine ⟨fun n => ?_, fun r => ?_⟩
  · rw [State.action?, blankState, Array.getD_eq_getD_getElem?, Array.getElem?_replicate]
    split <;> rfl
  · rw [blankState, Array.getD_eq_getD_getElem?, Array.getElem?_replicate]
    split <;> rfl

/-- The construction starts with the state for errors and the one in front of whole texts. -/
theorem exists_start (p : Productions) : ∃ (blank : State) (start : Kernel), Blank blank ∧
    p.KernelOk start ∧ p.toItems.canonical = (p.toItems.expandFrom blank 100000 1
      ((firstState blank (p.toItems.items.size + 1)).intern blank start).2).states := by
  let start : Kernel := (p.toItems.starts.getD p.wholeText []).map (·, NatSet.single p.endSymbol)
  have hstart : p.KernelOk start := by
    refine .outside 0 fun x hx => ?_
    obtain ⟨i, hi, rfl⟩ := List.mem_map.mp hx
    exact ⟨stands_of_mem_starts hi, rfl⟩
  refine ⟨blankState p, start, blank_blankState p, hstart, ?_⟩
  unfold Items.canonical
  simp only [intern_nil]
  rfl

theorem Sane.exists_kernel {coreOf : Nat → List Nat} {c : Construction} (h : p.Sane coreOf c) {n : Nat}
    {s : State} (hs : c.states[n]? = some s) : ∃ k, c.kernels[n]? = some k :=
  ⟨_, Array.getElem?_eq_getElem (h.size ▸ (Array.getElem?_eq_some_iff.mp hs).1)⟩

/-- The states of the canonical automaton have roles, by their cores. -/
theorem exists_cast_canonical (hp : p.Tidy) :
    ∃ role roleOf, p.Cast role p.toItems.canonical ∧ CoreCast role roleOf p.toItems.canonical := by
  obtain ⟨blank, start, hblank, hstart, heq⟩ := exists_start p
  obtain ⟨coreOf₁, hsane₁, hext₁, -⟩ :=
    intern_spec (firstState_sane hblank (p.toItems.items.size + 1)) hblank hstart
  obtain ⟨coreOf₂, hsane₂, hext₂⟩ := expandFrom_spec hp hblank 100000 1 hsane₁
  have hext := hext₁.trans hext₂
  rw [heq]
  generalize p.toItems.expandFrom blank 100000 1 _ = c at *
  have hrole : ∀ {m : Nat} {k}, c.kernels[m]? = some k → c.kernels.getD m [] = k := by
    intro m k hk
    rw [Array.getD_eq_getD_getElem?, hk, Option.getD_some]
  -- the role of a state, by its kernel
  refine ⟨fun n => p.toItems.roleOf ((c.kernels.getD n []).map (·.1)),
    fun core => p.toItems.roleOf (coreOf₂ core), ⟨?_, fun n s hs => ?_⟩, ?_, fun n s hs => ?_,
    fun n hn => ?_⟩
  · simp only [hrole (hext.kernels 0 [] rfl)]
    rfl
  · obtain ⟨k, hk⟩ := hsane₂.exists_kernel hs
    obtain ⟨hfits, -⟩ := hsane₂.state n s k hs hk
    simp only [hrole hk]
    refine hfits.mono (fun m hm => ?_) fun m hm => ?_
    · obtain ⟨k', hk', hplain⟩ := hm
      rw [hrole hk', hplain]
      simp
    · obtain ⟨k', hk', hfinal⟩ := hm
      rw [hrole hk']
      exact .inr hfinal
  · rw [hext.coreOf 0 Nat.zero_lt_one]
    rfl
  · obtain ⟨k, hk⟩ := hsane₂.exists_kernel hs
    obtain ⟨-, hcore, -⟩ := hsane₂.state n s k hs hk
    simp only [hrole hk, hcore]
  · rw [Array.getD_eq_getD_getElem?, Array.getElem?_eq_none (hsane₂.size ▸ hn)]
    rfl

end Productions

end BaselineAudit.Parsing
