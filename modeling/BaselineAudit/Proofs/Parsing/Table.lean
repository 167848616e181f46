import BaselineAudit.Proofs.Parsing.Automaton
import BaselineAudit.Parsing.Table

/-!
# The roles of the states of a table

A table is made of the canonical automaton by merging states, skipping some and dropping others. All of
that keeps the roles that states play.

* `Merging.ofStates_ok`: states are merged only if they have one core.
* `Bypass.cast_apply`: the state behind a whole text is never skipped to.
* `Table.Ordered`: what follows for the table of a grammar.
-/

namespace BaselineAudit.Parsing

open Productions (Cast ByCore CoreCast Blank blankState blank_blankState)

variable {p : Productions} {own : Role} {S S' F F' : Nat → Prop} {s : State} {role : Nat → Role}
  {states : Array State}

/-! ## Changing states -/

theorem Action.Fits.redirect {n : Nat} {a : Action} {f : Nat → Nat} (h : a.Fits p own S n)
    (hS : ∀ m, S m → S' (f m)) : (Merging.redirect f a).Fits p own S' n := by
  cases a with
  | shift m => exact ⟨h.1, h.2.1, hS m h.2.2⟩
  | reduce rule count aliases again =>
    refine ⟨h.1, h.2.1, fun m hm => ?_⟩
    obtain ⟨m', hm', rfl⟩ := Option.map_eq_some_iff.mp hm
    exact hS m' (h.2.2 m' hm')
  | extra => exact h
  | accept => exact h
  | recover => exact h

/-- Putting other states in the place of those that a state leads to. -/
theorem State.Fits.redirect {f : Nat → Nat} (h : s.Fits p own S F) (hS : ∀ m, S m → S' (f m))
    (hF : ∀ m, m ≠ 0 → F m → F' (f m)) : (Merging.redirectState f s).Fits p own S' F' := by
  rw [State.fits_iff_all] at h ⊢
  refine h.redirect (fun n a ha => ha.redirect hS) fun r m hne hm => ?_
  exact ⟨hm.1, fun hr => hF m hne (hm.2.1 hr), fun hr => hS m (hm.2.2 hr)⟩

/-- A state that does what either of two does. -/
theorem State.Fits.union {t : State} (hs : s.Fits p own S F) (ht : t.Fits p own S F) :
    (Merging.union s t).Fits p own S F :=
  State.fits_iff_all.mpr ((State.fits_iff_all.mp hs).union (State.fits_iff_all.mp ht))

/-- The state for errors looks for tokens only to find out how to go on. -/
theorem errorState_fits (confusion : Confusion) (together : Array NatSet)
    (h : s.Fits p .error S F) : (errorState p confusion together s).Fits p .error S F :=
  State.fits_iff_all.mpr ((State.fits_iff_all.mp h).errorState p confusion together fun _ => rfl)

/-! ## Merging states -/

namespace Merging

/-- The core of a state, by its number. -/
def coreAt (states : Array State) (n : Nat) : Nat := (states[n]?.map State.core).getD 0

/-- Each state is in its group, the states of a group have one core, and group 0 is that of core 0. -/
structure Ok (states : Array State) (m : Merging) : Prop where
  size : m.groupOf.size = states.size
  lt : ∀ g, ∀ s ∈ m.members.getD g [], s < states.size
  same : ∀ g, ∀ s ∈ m.members.getD g [], ∀ t ∈ m.members.getD g [],
    coreAt states s = coreAt states t
  zero : ∀ s ∈ m.members.getD 0 [], coreAt states s = 0
  mem : ∀ s < states.size, s ∈ m.members.getD (m.groupOf.getD s 0) []

theorem mem_outsiders {apart : Nat → Nat → Bool} {fuel : Nat} {l out : List Nat} {b : Nat}
    (h : b ∈ outsiders apart fuel l out) : b ∈ out ∨ b ∈ l := by
  induction fuel generalizing l out with
  | zero => exact .inl h
  | succ fuel ih =>
    cases l with
    | nil => exact .inl h
    | cons a rest =>
      rw [outsiders] at h
      split at h
      · exact (ih h).imp_right (List.mem_cons_of_mem a)
      · rcases ih h with h | h
        · -- what is added comes from the rest
          refine List.foldlRecOn (motive := fun (out' : List Nat) => b ∈ out' → b ∈ out ∨ b ∈ a :: rest)
            _ _ .inl (fun out' hout' c hc hb => ?_) h
          split at hb
          · rcases List.mem_append.mp hb with hb | hb
            · exact hout' hb
            · rw [List.mem_singleton.mp hb]
              exact .inr (List.mem_cons_of_mem a hc)
          · exact hout' hb
        · exact .inr (List.mem_cons_of_mem a h)

theorem foldl_setGroup (out : List Nat) (n : Nat) (groups : Array Nat) :
    (out.foldl (fun gs s => gs.setIfInBounds s n) groups).size = groups.size ∧
      ∀ s < groups.size, (out.foldl (fun gs s => gs.setIfInBounds s n) groups).getD s 0 =
        if s ∈ out then n else groups.getD s 0 := by
  induction out generalizing groups with
  | nil => exact ⟨rfl, fun s _ => by simp⟩
  | cons a out ih =>
    obtain ⟨hsize, hget⟩ := ih (groups.setIfInBounds a n)
    rw [Array.size_setIfInBounds] at hsize hget
    refine ⟨hsize, fun s hs => ?_⟩
    rw [List.foldl_cons, hget s hs]
    by_cases ha : a = s
    · subst ha
      simp [Array.getD_eq_getD_getElem?, hs]
    · simp [Array.getD_eq_getD_getElem?, Array.getElem?_setIfInBounds_ne ha, Ne.symm ha]

/-- Members of a group may get one of their own. -/
theorem Ok.split {m : Merging} (h : m.Ok states) {g : Nat} (hg : g < m.members.size)
    {members out : List Nat} (hm : m.members.getD g [] = members) (hout : ∀ s ∈ out, s ∈ members) :
    Ok states
      { groupOf := out.foldl (fun gs s => gs.setIfInBounds s m.members.size) m.groupOf
        members := (m.members.setIfInBounds g (members.filter fun s => !out.contains s)).push out } := by
  obtain ⟨hsize, hget⟩ := foldl_setGroup out m.members.size m.groupOf
  generalize hnew : (m.members.setIfInBounds g (members.filter fun s => !out.contains s)).push out = new
  have hlast : new.getD m.members.size [] = out := by
    rw [← hnew, Array.getD_eq_getD_getElem?, Array.getElem?_push, Array.size_setIfInBounds, if_pos rfl]
    rfl
  have hself : new.getD g [] = members.filter fun s => !out.contains s := by
    rw [← hnew, Array.getD_eq_getD_getElem?, Array.getElem?_push, Array.size_setIfInBounds,
      if_neg (Nat.ne_of_lt hg), Array.getElem?_setIfInBounds_self_of_lt hg]
    rfl
  have hother : ∀ g', g' ≠ m.members.size → g ≠ g' → new.getD g' [] = m.members.getD g' [] := by
    intro g' hlast hself
    rw [← hnew, Array.getD_eq_getD_getElem?, Array.getElem?_push, Array.size_setIfInBounds,
      if_neg hlast, Array.getElem?_setIfInBounds_ne hself, Array.getD_eq_getD_getElem?]
  -- the members of every group were together before
  have hsub : ∀ g', ∃ g'', ∀ s ∈ new.getD g' [], s ∈ m.members.getD g'' [] := by
    intro g'
    by_cases h₁ : g' = m.members.size
    · rw [h₁, hlast]
      exact ⟨g, fun s hs => hm ▸ hout s hs⟩
    · by_cases h₂ : g = g'
      · rw [← h₂, hself]
        exact ⟨g, fun s hs => hm ▸ (List.mem_filter.mp hs).1⟩
      · rw [hother g' h₁ h₂]
        exact ⟨g', fun s hs => hs⟩
  refine ⟨hsize.trans h.size, fun g' s hs => ?_, fun g' s hs t ht => ?_, fun s hs => ?_, fun s hs => ?_⟩
  · obtain ⟨g'', hg''⟩ := hsub g'
    exact h.lt g'' s (hg'' s hs)
  · obtain ⟨g'', hg''⟩ := hsub g'
    exact h.same g'' s (hg'' s hs) t (hg'' t ht)
  · by_cases hzero : g = 0
    · rw [← hzero, hself] at hs
      exact h.zero s (hzero ▸ hm ▸ (List.mem_filter.mp hs).1)
    · rw [hother 0 (by omega) hzero] at hs
      exact h.zero s hs
  · have hmem := h.mem s hs
    simp only
    rw [hget s (h.size ▸ hs)]
    by_cases hin : s ∈ out
    · rw [if_pos hin, hlast]
      exact hin
    · rw [if_neg hin]
      by_cases hsame : g = m.groupOf.getD s 0
      · rw [← hsame, hm] at hmem
        rw [← hsame, hself]
        exact List.mem_filter.mpr ⟨hmem, by simpa using hin⟩
      · have hlt : m.groupOf.getD s 0 ≠ m.members.size := by
          intro heq
          rw [heq, Array.getD_eq_getD_getElem?, Array.getElem?_eq_none (Nat.le_refl _)] at hmem
          exact absurd hmem (by simp)
        rw [hother _ hlt hsame]
        exact hmem

theorem Ok.splitFrom {m : Merging} (h : m.Ok states) (apart : Merging → Nat → Nat → Bool)
    (fuel g : Nat) : (splitFrom apart fuel g m).1.Ok states := by
  induction fuel generalizing g m with
  | zero => exact h
  | succ fuel ih =>
    rw [Merging.splitFrom]
    by_cases hg : g < m.members.size
    · rw [if_pos hg]
      generalize hm : m.members.getD g [] = members
      simp only
      split
      · exact ih h (g + 1)
      · refine ih (h.split hg hm fun s hs => ?_) (g + 1)
        exact (mem_outsiders hs).resolve_left (by simp)
    · rw [if_neg hg]
      exact h

theorem Ok.settleFrom {m : Merging} (h : m.Ok states) (p : Productions) (fuel : Nat) :
    (settleFrom p states fuel m).Ok states := by
  induction fuel generalizing m with
  | zero => exact h
  | succ fuel ih =>
    rw [Merging.settleFrom]
    have hsplit := h.splitFrom (partWays p states) 100000 0
    simp only
    split
    · exact ih hsplit
    · exact hsplit

/-- Numbers of states by their cores, for states that are numbered from `i` on. -/
theorem mem_foldl_groups (l : List State) (groups : Array (List Nat)) (i g n : Nat) :
    n ∈ (l.foldl (fun (groups, i) s => (groups.modify s.core (i :: ·), i + 1)) (groups, i)).1.getD g [] ↔
      n ∈ groups.getD g [] ∨
        g < groups.size ∧ i ≤ n ∧ ∃ s, l[n - i]? = some s ∧ s.core = g := by
  induction l generalizing groups i with
  | nil => simp
  | cons s l ih =>
    have hmodify : n ∈ (groups.modify s.core (i :: ·)).getD g [] ↔
        n ∈ groups.getD g [] ∨ g < groups.size ∧ n = i ∧ s.core = g := by
      rw [Array.getD_eq_getD_getElem?, Array.getD_eq_getD_getElem?, Array.getElem?_modify]
      by_cases hg : g < groups.size
      · by_cases hs : s.core = g
        · simp [hg, hs, or_comm]
        · simp [hg, hs]
      · simp [hg]
    rw [List.foldl_cons, ih, hmodify, Array.size_modify, or_assoc]
    refine or_congr_right ?_
    constructor
    · rintro (⟨hg, rfl, hs⟩ | ⟨hg, hle, t, ht, htg⟩)
      · exact ⟨hg, Nat.le_refl _, s, by simp, hs⟩
      · refine ⟨hg, by omega, t, ?_, htg⟩
        rw [show n - i = n - (i + 1) + 1 by omega, List.getElem?_cons_succ]
        exact ht
    · rintro ⟨hg, hle, t, ht, htg⟩
      by_cases hn : n = i
      · subst hn
        obtain rfl : s = t := by simpa using ht
        exact .inl ⟨hg, rfl, htg⟩
      · refine .inr ⟨hg, by omega, t, ?_, htg⟩
        rw [show n - i = n - (i + 1) + 1 by omega, List.getElem?_cons_succ] at ht
        exact ht

theorem lt_foldl_max (l : List State) (n : Nat) :
    n ≤ l.foldl (fun n s => max n (s.core + 1)) n ∧
      ∀ s ∈ l, s.core < l.foldl (fun n s => max n (s.core + 1)) n := by
  induction l generalizing n with
  | nil => exact ⟨Nat.le_refl _, by simp⟩
  | cons s l ih =>
    obtain ⟨hle, hlt⟩ := ih (max n (s.core + 1))
    rw [List.foldl_cons]
    refine ⟨by omega, fun t ht => ?_⟩
    rcases List.mem_cons.mp ht with rfl | ht
    · omega
    · exact hlt t ht

/-- States are merged only if they have one core. -/
theorem ofStates_ok (p : Productions) (confusion : Confusion) (states : Array State) :
    (ofStates p confusion states).Ok states := by
  unfold ofStates
  refine Ok.settleFrom (Ok.splitFrom ?_ _ _ _) p _
  have hmembers : ∀ g n, n ∈ ((states.foldl
      (fun (groups, i) s => (groups.modify s.core (i :: ·), i + 1))
      ((Array.replicate (states.foldl (fun n s => max n (s.core + 1)) 0) []), 0)).1.map
        List.reverse).getD g [] ↔ ∃ s, states[n]? = some s ∧ s.core = g := by
    intro g n
    have hcore : ∀ s ∈ states, s.core < states.foldl (fun n s => max n (s.core + 1)) 0 := by
      intro s hs
      rw [← Array.foldl_toList]
      exact (lt_foldl_max states.toList 0).2 s (Array.mem_toList_iff.mpr hs)
    generalize states.foldl (fun n s => max n (s.core + 1)) 0 = count at hcore
    have hmap : ∀ (a : Array (List Nat)), n ∈ (a.map List.reverse).getD g [] ↔ n ∈ a.getD g [] := by
      intro a
      rw [Array.getD_eq_getD_getElem?, Array.getD_eq_getD_getElem?, Array.getElem?_map]
      cases a[g]? with
      | none => rfl
      | some l => simp
    rw [hmap, ← Array.foldl_toList, mem_foldl_groups]
    have hnil : (Array.replicate count ([] : List Nat)).getD g [] = [] := by
      rw [Array.getD_eq_getD_getElem?, Array.getElem?_replicate]
      split <;> rfl
    rw [hnil, Array.size_replicate, Nat.sub_zero, Array.getElem?_toList]
    constructor
    · rintro (h | ⟨-, -, h⟩)
      · exact absurd h (by simp)
      · exact h
    · rintro ⟨s, hs, rfl⟩
      exact .inr ⟨hcore s (Array.mem_of_getElem? hs), Nat.zero_le _, s, hs, rfl⟩
  refine ⟨by simp, fun g s hs => ?_, fun g s hs t ht => ?_, fun s hs => ?_, fun s hs => ?_⟩
  · obtain ⟨x, hx, -⟩ := (hmembers g s).mp hs
    exact (Array.getElem?_eq_some_iff.mp hx).1
  · obtain ⟨x, hx, hxg⟩ := (hmembers g s).mp hs
    obtain ⟨y, hy, hyg⟩ := (hmembers g t).mp ht
    simp only [coreAt, hx, hy, Option.map_some, Option.getD_some, hxg, hyg]
  · obtain ⟨x, hx, hxg⟩ := (hmembers 0 s).mp hs
    simp only [coreAt, hx, Option.map_some, Option.getD_some, hxg]
  · refine (hmembers _ s).mpr ⟨_, Array.getElem?_eq_getElem hs, ?_⟩
    rw [Array.getD_eq_getD_getElem?, Array.getElem?_map, Array.getElem?_eq_getElem hs]
    rfl

variable {α : Type} {d : α} {value ofCore : Nat → α}

/-- The value of a group is that of its members. -/
def groupValue (m : Merging) (d : α) (value : Nat → α) (g : Nat) : α :=
  ((m.members.getD g []).head?.map value).getD d

theorem Ok.groupValue_eq {m : Merging} (h : m.Ok states) (hv : ByCore d value ofCore states)
    {g s : Nat} (hs : s ∈ m.members.getD g []) : m.groupValue d value g = value s := by
  have hcore : ∀ s < states.size, value s = ofCore (coreAt states s) := by
    intro s hs
    rw [hv.core s _ (Array.getElem?_eq_getElem hs), coreAt, Array.getElem?_eq_getElem hs]
    rfl
  have hlt := h.lt g
  have hsame := h.same g
  unfold groupValue
  generalize m.members.getD g [] = l at hs hlt hsame
  cases l with
  | nil => exact absurd hs (by simp)
  | cons t l =>
    show value t = value s
    rw [hcore t (hlt t List.mem_cons_self), hcore s (hlt s hs), hsame t List.mem_cons_self s hs]

theorem Ok.groupValue_zero {m : Merging} (h : m.Ok states) (hv : ByCore d value ofCore states) :
    m.groupValue d value 0 = d := by
  have hlt := h.lt 0
  have hzero := h.zero
  unfold groupValue
  generalize m.members.getD 0 [] = l at hlt hzero
  cases l with
  | nil => rfl
  | cons t l =>
    have ht := hzero t List.mem_cons_self
    have hlt := hlt t List.mem_cons_self
    rw [coreAt, Array.getElem?_eq_getElem hlt] at ht
    show value t = d
    rw [hv.core t _ (Array.getElem?_eq_getElem hlt), ← hv.error]
    exact congrArg ofCore ht

/-- The value of the group of a state is that of the state. -/
theorem Ok.groupValue_groupOf {m : Merging} (h : m.Ok states) (hv : ByCore d value ofCore states)
    (n : Nat) : m.groupValue d value (m.groupOf.getD n 0) = value n := by
  rcases Nat.lt_or_ge n states.size with hlt | hge
  · exact h.groupValue_eq hv (h.mem n hlt)
  · rw [Array.getD_eq_getD_getElem?, Array.getElem?_eq_none (h.size ▸ hge), hv.absent n hge]
    exact h.groupValue_zero hv

/-- The role of a group is that of its members. -/
def roleOfGroup (m : Merging) (role : Nat → Role) (g : Nat) : Role :=
  ((m.members.getD g []).head?.map role).getD .error

theorem Ok.role_eq {m : Merging} (h : m.Ok states) {roleOf : Nat → Role}
    (hr : CoreCast role roleOf states) {g s : Nat} (hs : s ∈ m.members.getD g []) :
    m.roleOfGroup role g = role s :=
  h.groupValue_eq hr hs

/-- The role of group 0 is that of errors. -/
theorem Ok.role_zero {m : Merging} (h : m.Ok states) {roleOf : Nat → Role}
    (hr : CoreCast role roleOf states) : m.roleOfGroup role 0 = .error :=
  h.groupValue_zero hr

/-- Merged states play the role of those that they were merged from. -/
theorem Ok.cast_merged {m : Merging} (h : m.Ok states) {roleOf : Nat → Role}
    (hcast : p.Cast role states) (hr : CoreCast role roleOf states) {blank : State}
    (hblank : Blank blank) : p.Cast (m.roleOfGroup role) (m.merged states blank) := by
  refine ⟨h.role_zero hr, fun g s hs => ?_⟩
  rw [merged, Array.getElem?_map] at hs
  obtain ⟨members, hmembers, rfl⟩ := Option.map_eq_some_iff.mp hs
  have hget : m.members.getD g [] = members := by
    rw [Array.getD_eq_getD_getElem?, hmembers]
    rfl
  have hgroup : ∀ n, m.roleOfGroup role (m.groupOf.getD n 0) = role n := h.groupValue_groupOf hr
  have hall : ∀ n ∈ members, (states.getD n blank).Fits p (m.roleOfGroup role g)
      (fun m => role m ≠ .final) fun m => m = 0 ∨ role m = .final := by
    intro n hn
    rw [← hget] at hn
    have hlt := h.lt g n hn
    rw [h.role_eq hr hn, Array.getD_eq_getD_getElem?, Array.getElem?_eq_getElem hlt]
    exact hcast.fits n _ (Array.getElem?_eq_getElem hlt)
  refine State.Fits.redirect (S := fun m => role m ≠ .final)
    (F := fun m => m = 0 ∨ role m = .final) ?_ (fun n hn => ?_) fun n hne hn => ?_
  · cases members with
    | nil => exact hblank.fits _ _ _
    | cons first rest =>
      refine List.foldlRecOn (motive := fun (s : State) => s.Fits p (m.roleOfGroup role g)
        (fun m => role m ≠ .final) fun m => m = 0 ∨ role m = .final) _ _
        (hall first (List.mem_cons_self ..)) fun s hs t ht => ?_
      obtain ⟨n, hn, rfl⟩ := List.mem_map.mp ht
      exact hs.union (hall n (List.mem_cons_of_mem first hn))
  · rw [hgroup n]
    exact hn
  · exact .inr ((hgroup n).trans (hn.resolve_left hne))

end Merging

/-! ## Skipping and dropping states -/

namespace Bypass

/-- A rule whose states are skipped is hidden. -/
theorem onlyRule?_hidden {rule : Nat} (h : onlyRule? p s = some rule) :
    p.labels.getD (p.ruleSymbol rule) none = none := by
  unfold onlyRule? at h
  simp only at h
  split at h
  · split at h
    next hcond =>
      obtain rfl := Option.some.inj h
      simp only [Bool.and_eq_true, Option.isNone_iff_eq_none] at hcond
      exact hcond.1.2
    next => exact absurd h (by simp)
  · exact absurd h (by simp)

theorem hidden_of_skipped {m rule : Nat}
    (h : (states.map (onlyRule? p)).getD m none = some rule) :
    p.labels.getD (p.ruleSymbol rule) none = none := by
  rw [Array.getD_eq_getD_getElem?, Array.getElem?_map] at h
  cases hx : states[m]? with
  | none =>
    rw [hx] at h
    exact absurd h (by simp)
  | some x =>
    rw [hx] at h
    exact onlyRule?_hidden h

/-- A state behind a whole text is not skipped. -/
theorem onlyRule?_final (h : s.Fits p .final S F) : onlyRule? p s = none := by
  unfold onlyRule?
  simp only
  split
  · rename_i rule rest heq
    -- what stands at the head of the list is a rule that the state completes
    obtain ⟨a, ha, hrule⟩ := List.mem_filterMap.mp (heq ▸ List.mem_cons_self .. :
      some rule ∈ s.actions.toList.filterMap _)
    obtain ⟨n, hn⟩ := Array.mem_iff_getElem?.mp (Array.mem_toList_iff.mp ha)
    cases a with
    | none => exact absurd hrule (by simp)
    | some a =>
      have hfits := h.action n a (by rw [State.action?, Array.getD_eq_getD_getElem?, hn]; rfl)
      cases a with
      | reduce rule count aliases again => exact absurd hfits.1 (by simp)
      | shift m => exact absurd hfits.1 (by simp)
      | recover => exact absurd hfits (by simp [Action.Fits])
      | extra => exact absurd hrule (by simp)
      | accept => exact absurd hrule (by simp)
  · rfl

/-- Skipping states never leads behind a whole text, whose rule is shown. -/
theorem resolve_ne_final (hp : p.Tidy) (hs : s.Fits p own (fun m => role m ≠ .final) F) (fuel : Nat)
    {m : Nat} (hm : role m ≠ .final) :
    role (resolve (states.map (onlyRule? p)) s.gotos fuel m) ≠ .final := by
  induction fuel generalizing m with
  | zero => exact hm
  | succ fuel ih =>
    rw [resolve]
    split
    · exact hm
    · rename_i rule honly
      have hrule : rule ≠ 0 := by
        rintro rfl
        exact hp.shown (hidden_of_skipped honly)
      split
      · exact hm
      · rename_i hne
        exact ih ((hs.goto rule _ rfl (by simpa using hne)).2.2 hrule)

theorem cast_apply (hp : p.Tidy) (h : p.Cast role states) : p.Cast role (apply p states) := by
  refine ⟨h.error, fun n s hs => ?_⟩
  rw [apply, Array.getElem?_map] at hs
  obtain ⟨s, hn, rfl⟩ := Option.map_eq_some_iff.mp hs
  have hfits := h.fits n s hn
  refine hfits.redirect (fun m hm => resolve_ne_final hp hfits _ hm) fun m hne hm => .inr ?_
  have hfinal := hm.resolve_left hne
  have honly : (states.map (onlyRule? p)).getD m none = none := by
    rw [Array.getD_eq_getD_getElem?, Array.getElem?_map]
    cases hx : states[m]? with
    | none => rfl
    | some x => exact onlyRule?_final (hfinal ▸ h.fits m x hx)
  have hsame : ∀ fuel, resolve (states.map (onlyRule? p)) s.gotos fuel m = m := by
    intro fuel
    cases fuel with
    | zero => rfl
    | succ fuel => rw [resolve, honly]
  rw [hsame]
  exact hfinal

/-- The new place of a state is where it stands in the new order. -/
theorem getD_place (order : List Nat) (size m : Nat) :
    let place := order.zipIdx.foldl (fun (a : Array Nat) (n, i) => a.setIfInBounds n i)
      (Array.replicate size 0)
    place.getD m 0 = 0 ∨ order[place.getD m 0]? = some m := by
  refine List.foldlRecOn (motive := fun (place : Array Nat) => place.getD m 0 = 0 ∨
    order[place.getD m 0]? = some m) _ _ ?_ fun place hplace x hx => ?_
  · left
    rw [Array.getD_eq_getD_getElem?, Array.getElem?_replicate]
    split <;> rfl
  · obtain ⟨n, i⟩ := x
    have hi := List.mem_zipIdx_iff_getElem?.mp hx
    by_cases hn : n = m
    · subst hn
      by_cases hlt : n < place.size
      · right
        rw [Array.getD_eq_getD_getElem?, Array.getElem?_setIfInBounds_self_of_lt hlt]
        exact hi
      · left
        rw [Array.getD_eq_getD_getElem?, Array.getElem?_eq_none (by simpa using hlt)]
        rfl
    · simp only [Array.getD_eq_getD_getElem?, Array.getElem?_setIfInBounds_ne hn] at hplace ⊢
      exact hplace

/-- The states that are kept, in their new order. -/
theorem exists_compacted (states : Array State) (blank : State) :
    ∃ (order : List Nat) (place : Array Nat), order[0]? = some 0 ∧
      (∀ m, place.getD m 0 = 0 ∨ order[place.getD m 0]? = some m) ∧
      compacted states blank =
        (order.map fun n => Merging.redirectState (place.getD · 0) (states.getD n blank)).toArray :=
  ⟨_, _, rfl, getD_place _ states.size, rfl⟩

theorem exists_cast_compacted (h : p.Cast role states) {blank : State} (hblank : Blank blank) :
    ∃ role', p.Cast role' (compacted states blank) := by
  obtain ⟨order, place, hzero, hplace, heq⟩ := exists_compacted states blank
  have hrole : ∀ m, place.getD m 0 ≠ 0 → role (order.getD (place.getD m 0) 0) = role m := by
    intro m hm
    rw [List.getD_eq_getElem?_getD, (hplace m).resolve_left hm]
    rfl
  have herror : role (order.getD 0 0) = .error := by
    rw [List.getD_eq_getElem?_getD, hzero]
    exact h.error
  refine ⟨fun i => role (order.getD i 0), herror, fun i s hs => ?_⟩
  rw [heq, List.getElem?_toArray, List.getElem?_map] at hs
  obtain ⟨n, hn, rfl⟩ := Option.map_eq_some_iff.mp hs
  have hfits : (states.getD n blank).Fits p (role n) (fun m => role m ≠ .final)
      fun m => m = 0 ∨ role m = .final := by
    rw [Array.getD_eq_getD_getElem?]
    cases hx : states[n]? with
    | none => exact hblank.fits _ _ _
    | some x => exact h.fits n x hx
  rw [List.getD_eq_getElem?_getD, hn]
  refine hfits.redirect (fun m hm => ?_) fun m hne hm => ?_
  · by_cases hp : place.getD m 0 = 0
    · rw [hp, herror]
      simp
    · rw [hrole m hp]
      exact hm
  · by_cases hp : place.getD m 0 = 0
    · exact .inl hp
    · exact .inr ((hrole m hp).trans (hm.resolve_left hne))

end Bypass

/-! ## Tables -/

namespace Table

/-- The roles of the states of a table. -/
structure Ordered (t : Table) (role : Nat → Role) : Prop where
  error : role 0 = .error
  action : ∀ q n a, t.action? q n = some a → a.Fits t.grammar (role q) (fun m => role m ≠ .final) n
  goto : ∀ q r m, (t.state q).gotos.getD r 0 = m → m ≠ 0 →
    role q = .plain ∧ (r = 0 → role m = .final) ∧ (r ≠ 0 → role m ≠ .final)

/-- What holds throughout the states of an automaton holds throughout a table that does the same. -/
theorem all_of_states {t : Table} {A : Nat → Nat → Action → Prop} {G : Nat → Nat → Nat → Prop}
    (h : ∀ (q : Nat) s, states[q]? = some s → s.All (A q) (G q))
    (ht : ∀ (i : Nat) ts, t.states[i]? = some ts →
      ∃ s, states[i]? = some s ∧ ts.actions = s.actions ∧ ts.gotos = s.gotos) :
    (∀ q n a, t.action? q n = some a → A q n a) ∧
      ∀ q r m, (t.state q).gotos.getD r 0 = m → m ≠ 0 → G q r m := by
  refine ⟨fun q n a ha => ?_, fun q r m hm hne => ?_⟩
  · unfold action? state at ha
    rw [show t.states.getD q default = t.states[q]?.getD default from
      Array.getD_eq_getD_getElem?] at ha
    cases hq : t.states[q]? with
    | none =>
      rw [hq] at ha
      exact absurd ha (by simp [Array.getD_eq_getD_getElem?, show (default : TableState).actions = #[] from rfl])
    | some ts =>
      rw [hq, Option.getD_some] at ha
      obtain ⟨s, hs, hactions, -⟩ := ht q ts hq
      exact (h q s hs).action n a (by rw [State.action?, ← hactions]; exact ha)
  · unfold state at hm
    rw [show t.states.getD q default = t.states[q]?.getD default from
      Array.getD_eq_getD_getElem?] at hm
    cases hq : t.states[q]? with
    | none =>
      rw [hq] at hm
      refine absurd ?_ hne
      simpa [Array.getD_eq_getD_getElem?, show (default : TableState).gotos = #[] from rfl] using hm.symm
    | some ts =>
      rw [hq, Option.getD_some] at hm
      obtain ⟨s, hs, -, hgotos⟩ := ht q ts hq
      exact (h q s hs).goto r m (by rw [← hgotos]; exact hm) hne

theorem ordered_of_cast {t : Table} (h : t.grammar.Cast role states)
    (ht : ∀ (i : Nat) ts, t.states[i]? = some ts →
      ∃ s, states[i]? = some s ∧ ts.actions = s.actions ∧ ts.gotos = s.gotos) : t.Ordered role := by
  obtain ⟨haction, hgoto⟩ := all_of_states (fun q s hs => State.fits_iff_all.mp (h.fits q s hs)) ht
  refine ⟨h.error, haction, fun q r m hm hne => ?_⟩
  obtain ⟨hplain, hfinal, hother⟩ := hgoto q r m hm hne
  exact ⟨hplain, fun hr => (hfinal hr).resolve_left hne, hother⟩

/-- An automaton with its state for errors: all states but the first one stay as they are. -/
theorem getElem?_setError {confusion : Confusion} {together : Array NatSet} {blank : State} {n : Nat}
    (hs : (states.setIfInBounds 0 (errorState p confusion together (states.getD 0 blank)))[n]? = some s) :
    states[n]? = some s ∨
      n = 0 ∧ ∃ s₀, states[0]? = some s₀ ∧ s = errorState p confusion together s₀ := by
  rw [Array.getElem?_setIfInBounds] at hs
  by_cases hn : 0 = n
  · subst hn
    rw [if_pos rfl] at hs
    by_cases hlt : 0 < states.size
    · rw [if_pos hlt] at hs
      have hget := Array.getElem?_eq_getElem hlt
      refine .inr ⟨rfl, _, hget, ?_⟩
      rw [← Option.some.inj hs, Array.getD_eq_getD_getElem?, hget]
      rfl
    · rw [if_neg hlt] at hs
      exact absurd hs (by simp)
  · rw [if_neg hn] at hs
    exact .inl hs

/-- The automaton with its state for errors. -/
theorem cast_setError {roleOf : Nat → Role} (h : p.Cast role states)
    (hr : CoreCast role roleOf states) (confusion : Confusion) (together : Array NatSet)
    (blank : State) :
    p.Cast role (states.setIfInBounds 0 (errorState p confusion together (states.getD 0 blank))) ∧
      CoreCast role roleOf
        (states.setIfInBounds 0 (errorState p confusion together (states.getD 0 blank))) := by
  refine ⟨⟨h.error, fun n s hs => ?_⟩, hr.error, fun n s hs => ?_, fun n hn => ?_⟩
  · rcases getElem?_setError hs with hs | ⟨rfl, s₀, hs₀, rfl⟩
    · exact h.fits n s hs
    · rw [h.error]
      exact errorState_fits confusion together (h.error ▸ h.fits 0 s₀ hs₀)
  · rcases getElem?_setError hs with hs | ⟨rfl, s₀, hs₀, rfl⟩
    · exact hr.core n s hs
    · exact hr.core 0 s₀ hs₀
  · exact hr.absent n (by simpa using hn)

/-- At a grammar at hand, the table would be computed to see that. -/
theorem ofGrammar_grammar (g : Grammar) : (ofGrammar g).grammar = g.productions := rfl

/-- The canonical automaton of a grammar with its state for errors. -/
def complete (p : Productions) : Array State :=
  p.toItems.canonical.setIfInBounds 0 (errorState p p.toItems.confusion
    (coincident p p.toItems.canonical) (p.toItems.canonical.getD 0 (blankState p)))

/-- The automaton that the table of a grammar is made of. -/
def automaton (p : Productions) : Array State :=
  Bypass.compacted (Bypass.apply p
    ((Merging.ofStates p p.toItems.confusion (complete p)).merged (complete p) (blankState p)))
    (blankState p)

theorem states_ofGrammar {g : Grammar} {i : Nat} {ts : TableState}
    (h : (ofGrammar g).states[i]? = some ts) :
    ∃ s, (automaton g.productions)[i]? = some s ∧ ts.actions = s.actions ∧ ts.gotos = s.gotos := by
  unfold ofGrammar at h
  simp only [List.getElem?_toArray, List.getElem?_map] at h
  obtain ⟨⟨s, mode⟩, hs, rfl⟩ := Option.map_eq_some_iff.mp h
  obtain ⟨hs, -⟩ := List.getElem?_zip_eq_some.mp hs
  exact ⟨s, by rw [← Array.getElem?_toList]; exact hs, rfl, rfl⟩

/-- The states of the table of a grammar have roles. -/
theorem exists_ordered {g : Grammar} (hg : g.productions.Tidy) :
    ∃ role, (ofGrammar g).Ordered role := by
  have hblank := blank_blankState g.productions
  obtain ⟨role₁, roleOf, hcast₁, hcore₁⟩ := Productions.exists_cast_canonical hg
  obtain ⟨hcast₂, hcore₂⟩ := cast_setError hcast₁ hcore₁ g.productions.toItems.confusion
    (coincident g.productions g.productions.toItems.canonical) (blankState g.productions)
  have hcast₃ := (Merging.ofStates_ok g.productions g.productions.toItems.confusion _).cast_merged
    hcast₂ hcore₂ hblank
  obtain ⟨role₄, hcast₄⟩ := Bypass.exists_cast_compacted (Bypass.cast_apply hg hcast₃) hblank
  exact ⟨role₄, ordered_of_cast hcast₄ fun _ _ => states_ofGrammar⟩

end Table

end BaselineAudit.Parsing
