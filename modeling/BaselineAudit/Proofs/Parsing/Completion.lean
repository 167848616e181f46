import BaselineAudit.Proofs.Parsing.Walk

/-!
# Completing rules

Completing a rule puts new heads behind those that there are, all at the place of the head that it is
completed on.

* `Language.reduce_grows`: what completing one rule does.
* `Language.completeAll_spec`: what completing all rules does that could be completed.
-/

namespace BaselineAudit.Parsing

variable {σ : Type} {lang : Language σ} {D : Discipline lang} {cs : List Char}
  {s s' s'' : Stack σ} {place : Place}

namespace Stack

/-- The heads in `R` are followed, at one place. -/
def Holds (R : Nat → Prop) (place : Place) (s : Stack σ) : Prop :=
  ∀ i h, R i → s.heads[i]? = some h → h.status = .active ∧ (s.top h).place = place

/-- A head of a later stack stands where head `j` of an earlier one stood. -/
theorem Holds.carry {R : Nat → Prop} {j : Nat} {h h' : Head σ} (hs : s.Holds R place)
    (hsound : s.Sound D cs) (he : s.Extends D s') (hj : R j) (hh : s.heads[j]? = some h)
    (hn : h'.node = h.node) (hst : h'.status = h.status) :
    h'.status = .active ∧ (s'.top h').place = place := by
  obtain ⟨ha, hp⟩ := hs j h hj hh
  refine ⟨hst.trans ha, ?_⟩
  rw [top, hn, (he.node _ (hsound.heads hh).lt).2]
  exact hp

theorem exists_head {i : Nat} (hi : i < s.heads.size) : ∃ h, s.heads[i]? = some h :=
  ⟨_, Array.getElem?_eq_getElem hi⟩

theorem lt_of_head {i : Nat} {h : Head σ} (hi : s.heads[i]? = some h) : i < s.heads.size :=
  (Array.getElem?_eq_some_iff.mp hi).1

theorem Keeps.size {k : Nat} (h : Keeps k s s') (hk : k ≤ s.heads.size) : k ≤ s'.heads.size := by
  rcases Nat.eq_zero_or_pos k with rfl | hpos
  · exact Nat.zero_le _
  · obtain ⟨x, hx⟩ := exists_head (s := s) (show k - 1 < s.heads.size by omega)
    obtain ⟨y, hy, -⟩ := h (k - 1) (by omega) x hx
    have := lt_of_head hy
    omega

/-! ## New heads -/

/-- The first `k` heads are kept, and those behind them are followed, at one place. -/
structure Grows (D : Discipline lang) (cs : List Char) (k : Nat) (place : Place)
    (s s' : Stack σ) : Prop where
  sound : s'.Sound D cs
  later : s.Extends D s'
  keeps : Keeps k s s'
  size : k ≤ s'.heads.size
  holds : s'.Holds (k ≤ ·) place

theorem Grows.refl (hs : s.Sound D cs) (place : Place) : Grows D cs s.heads.size place s s := by
  refine ⟨hs, .refl s, .refl _ s, Nat.le_refl _, fun i h hi hh => ?_⟩
  have := lt_of_head hh
  omega

/-- Heads that are followed at the place of the new ones still are. -/
theorem Grows.holds_of {R : Nat → Prop} (h : Grows D cs s.heads.size place s s')
    (hs : s.Sound D cs) (hR : s.Holds R place) : s'.Holds R place := by
  intro i x hi hx
  rcases Nat.lt_or_ge i s.heads.size with hlt | hge
  · obtain ⟨y, hy⟩ := exists_head hlt
    obtain ⟨z, hz, hn, hst⟩ := h.keeps i hlt y hy
    obtain rfl : z = x := Option.some.inj (hz.symm.trans hx)
    exact hR.carry hs h.later hi hy hn hst
  · exact h.holds i x hge hx

theorem Grows.trans {k : Nat} (h : Grows D cs k place s s')
    (h' : Grows D cs s'.heads.size place s' s'') : Grows D cs k place s s'' := by
  exact ⟨h'.sound, h.later.trans h'.later, h.keeps.trans (h'.keeps.of_le h.size),
    Nat.le_trans h.size h'.size, h'.holds_of h.sound h.holds⟩

/-- One more head. -/
def withHead (s : Stack σ) (h : Head σ) : Stack σ := { s with heads := s.heads.push h }

theorem getElem?_withHead (s : Stack σ) (h : Head σ) (i : Nat) :
    (s.withHead h).heads[i]? = if i = s.heads.size then some h else s.heads[i]? :=
  Array.getElem?_push

theorem withHead_sound (hs : s.Sound D cs) {h : Head σ} (hh : s.HeadOk D h) :
    (s.withHead h).Sound D cs := by
  refine sound_withHeads hs fun {i x} hx => ?_
  replace hx := (getElem?_withHead s h i).symm.trans hx
  split at hx
  · exact Option.some.inj hx ▸ hh
  · exact hs.heads hx

/-- A stack with one more head, which has moved on from where it was put. -/
theorem grows_of_withHead {h : Head σ} {state : Nat} (hs : s'.Sound D cs)
    (he : s.Extends D s') (hv : s'.Standing s.heads.size place state)
    (hk : ∀ i, s.heads.size ≠ i → s'.heads[i]? = (s.withHead h).heads[i]?) :
    Grows D cs s.heads.size place s s' := by
  obtain ⟨x, hx, ha, hp, -⟩ := hv
  refine ⟨hs, he, fun i hi y hy => ⟨y, ?_, rfl, rfl⟩, Nat.le_of_lt (lt_of_head hx),
    fun i y hi hy => ?_⟩
  · rw [hk i (Nat.ne_of_gt hi), getElem?_withHead, if_neg (Nat.ne_of_lt hi), hy]
  · rcases Nat.eq_or_lt_of_le hi with rfl | hlt
    · obtain rfl : x = y := Option.some.inj (hx.symm.trans hy)
      exact ⟨ha, hp⟩
    · rw [hk i (Nat.ne_of_lt hlt), getElem?_withHead, if_neg (Nat.ne_of_gt hlt)] at hy
      have := lt_of_head hy
      omega

/-! ## Trees that are taken off -/

/-- Trees that were found on top of node `n`, up to a place and a state. -/
structure Found (D : Discipline lang) (place : Place) (state count : Nat) (s : Stack σ) (n : Nat)
    (ts : List (Tree σ)) : Prop where
  good : s.Good D n
  sound : ∀ t ∈ ts, D.sound t
  covers : ∃ text, Tree.CoversAll ts text ∧ (s.node n).place.Behind text place
  chain : Chain D.joins state (s.node n).state ts count

theorem Found.mono {state count n : Nat} {ts : List (Tree σ)}
    (h : Found D place state count s n ts) (he : s.Extends D s') :
    Found D place state count s' n ts := by
  obtain ⟨hst, hp⟩ := he.node n h.good.lt
  exact ⟨he.good h.good, h.sound, hp ▸ h.covers, hst ▸ h.chain⟩

/-- The groups of ways over a number of trees. -/
theorem found_of_grouped (hs : s.Sound D cs) {h : Head σ} {count n : Nat}
    {ways : List (List (Tree σ))} (hg : s.Good D h.node)
    (hw : (n, ways) ∈ grouped (s.popCount h count)) :
    ways ≠ [] ∧ ∀ ts ∈ ways, Found D (s.top h).place (s.top h).state count s n ts := by
  obtain ⟨hne, hts⟩ := mem_grouped hw
  refine ⟨hne, fun ts h' => ?_⟩
  obtain ⟨w, hmem, rfl, rfl⟩ := hts ts h'
  obtain ⟨hway, hdepth⟩ := popCount_way hmem
  obtain ⟨-, hsound, hcovers⟩ := hway.covers hs.nodes hg.lt
  obtain ⟨hgood, hchain⟩ := hway.chain hg
  exact ⟨hgood, hsound, hcovers, hdepth ▸ hchain⟩

end Stack

namespace Language

open Stack

/-! ## Completing a rule -/

theorem splitTrailing_append (ts : List (Tree σ)) :
    (splitTrailing ts).1 ++ (splitTrailing ts).2 = ts := by
  rw [splitTrailing, ← List.reverse_append, List.takeWhile_append_dropWhile, List.reverse_reverse]

theorem extra_of_mem_trailing {ts : List (Tree σ)} {t : Tree σ} (h : t ∈ (splitTrailing ts).2) :
    t.extra = true :=
  List.all_eq_true.mp List.all_takeWhile t (List.mem_reverse.mp h)

/-- The tree of a rule is made of one of the lists of parts. -/
theorem bestParent_spec {rule : Nat} {aliases : List (Option Label)} {ways : List (List (Tree σ))}
    {parent : Tree σ} {trailing : List (Tree σ)}
    (h : lang.bestParent rule aliases ways = some (parent, trailing)) :
    ∃ ts ∈ ways, parent = Tree.node lang.table.grammar
        (.symbol (lang.table.grammar.ruleSymbol rule)) (splitTrailing ts).1 aliases ∧
      trailing = (splitTrailing ts).2 := by
  cases ways with
  | nil => exact absurd h (by simp [bestParent])
  | cons first others =>
    let build := fun (ts : List (Tree σ)) =>
      (Tree.node lang.table.grammar (.symbol (lang.table.grammar.ruleSymbol rule))
        (splitTrailing ts).1 aliases, (splitTrailing ts).2)
    -- the best of what was built so far is one of what was built
    have hbest : ∃ ts ∈ first :: others, others.foldl
        (fun best trees => if Tree.isBetter lang.table best.1 (build trees).1 then build trees
          else best) (build first) = build ts := by
      refine List.foldlRecOn (motive := fun best => ∃ ts ∈ first :: others, best = build ts) _ _
        ⟨first, List.mem_cons_self .., rfl⟩ fun best hb ts hts => ?_
      split
      · exact ⟨ts, List.mem_cons_of_mem first hts, rfl⟩
      · exact hb
    obtain ⟨ts, hts, heq⟩ := hbest
    have := (Option.some.inj h).symm.trans heq
    exact ⟨ts, hts, congrArg Prod.fst this, congrArg Prod.snd this⟩

variable [DecidableEq σ]

/-- What is done with the ways that end at one node. -/
theorem reduceGroup_grows {h : Head σ} {v n rule count symbol state : Nat}
    {aliases : List (Option Label)} {again : Option Nat} {ways : List (List (Tree σ))}
    {parent : Tree σ} {trailing : List (Tree σ)} (hs : s.Sound D cs)
    (hrule : lang.table.action? state symbol = some (.reduce rule count aliases again))
    (hw : ∀ ts ∈ ways, Found D place state count s n ts)
    (hbest : lang.bestParent rule aliases ways = some (parent, trailing)) :
    let next := lang.table.next (s.node n).state (lang.table.grammar.ruleSymbol rule)
    let pushed := pushAll ((s.withHead { h with node := n, status := .active, landmarks := none }).push
      s.heads.size (some parent) next) s.heads.size trailing next
    Grows D cs s.heads.size place s
      ((pushed.mergeInto? lang.initial s.heads.size
        ((List.range s.heads.size).filter (· != v))).getD pushed) := by
  intro next pushed
  obtain ⟨ts, hmem, rfl, rfl⟩ := bestParent_spec hbest
  obtain ⟨hgood, hsound, ⟨text, hcovers, hbehind⟩, hchain⟩ := hw ts hmem
  obtain ⟨hparent, hjoins⟩ := D.reduce hchain hsound hrule
  have hsplit := splitTrailing_append ts
  -- the text of the parent, and that of the extras behind it
  obtain ⟨u, u', rfl, hu, hu'⟩ := Tree.coversAll_append_inv (hsplit ▸ hcovers)
  obtain ⟨m, hm, hm'⟩ := hbehind.between
  have hhead : s.HeadOk D { h with node := n, status := .active, landmarks := none } :=
    ⟨hgood.lt, fun _ => hgood, fun t ht => absurd ht (by simp)⟩
  have hself : (s.withHead { h with node := n, status := .active, landmarks := none }).heads[
      s.heads.size]? = some { h with node := n, status := .active, landmarks := none } :=
    (getElem?_withHead ..).trans (if_pos rfl)
  obtain ⟨hs₁, he₁, hv₁, hk₁⟩ := push_sound next (withHead_sound hs hhead) hself rfl
    (show D.Between _ (some _) m from ⟨hparent, u, Tree.covers_node _ _ aliases hu, hm⟩) hjoins
  obtain ⟨hs₂, he₂, hv₂, hk₂⟩ := pushAll_sound next hs₁ hv₁ hu' hm' fun t ht =>
    ⟨hsound t (hsplit ▸ List.mem_append_right _ ht), extra_of_mem_trailing ht⟩
  have hgrows : Grows D cs s.heads.size place s pushed :=
    grows_of_withHead hs₂ ((extends_withHeads s _).trans (he₁.trans he₂)) hv₂ fun i hi =>
      (hk₂ i hi).trans (hk₁ i hi)
  cases hmerge : pushed.mergeInto? lang.initial s.heads.size
      ((List.range s.heads.size).filter (· != v)) with
  | none => exact hgrows
  | some merged =>
    obtain ⟨hs₃, he₃, hk₃, hfrom⟩ := mergeInto?_spec lang.initial hgrows.sound
      (fun a ha => List.mem_range.mp (List.mem_filter.mp ha).1) hmerge
    refine ⟨hs₃, hgrows.later.trans he₃, hgrows.keeps.trans hk₃, hk₃.size hgrows.size,
      fun i x hi hx => ?_⟩
    obtain ⟨y, hy, hn, hst⟩ := hfrom i x hx
    rw [if_neg (by omega)] at hy
    exact hgrows.holds.carry hgrows.sound he₃ (by omega) hy hn hst

/-- Completing a rule. -/
theorem reduce_grows {v rule count symbol : Nat} {aliases : List (Option Label)}
    {again : Option Nat} {h : Head σ} (hs : s.Sound D cs) (hv : s.heads[v]? = some h)
    (ha : h.status = .active)
    (hrule : lang.table.action? (s.top h).state symbol =
      some (.reduce rule count aliases again)) :
    Grows D cs s.heads.size (s.top h).place s (lang.reduce s v rule count aliases).1 ∧
      ∀ new, (lang.reduce s v rule count aliases).2 = some new →
        new = s.heads.size ∧ new < (lang.reduce s v rule count aliases).1.heads.size := by
  have hgood : s.Good D h.node := (hs.heads hv).good (by rw [ha]; rfl)
  have hgroups : ∀ g ∈ grouped (s.popCount h count), g.2 ≠ [] ∧
      ∀ ts ∈ g.2, Found D (s.top h).place (s.top h).state count s g.1 ts := fun g hg =>
    found_of_grouped hs hgood hg
  unfold reduce
  rw [hv]
  refine ⟨?_, fun new hnew => ?_⟩
  · simp only
    generalize s.heads.foldl (fun n h => if h.status.isHalted then n + 1 else n) 0 = halted
    generalize hp : (s.top h).place = p at hgroups ⊢
    generalize (s.top h).state = state at hgroups hrule
    generalize grouped (s.popCount h count) = groups at hgroups
    refine List.foldlRecOn (motive := fun s' => Grows D cs s.heads.size p s s') _ _ (.refl hs p)
      fun s' hs' g hg => ?_
    split
    · exact hs'
    · split
      · exact hs'
      · rename_i parent trailing hbest
        exact hs'.trans (reduceGroup_grows (h := h) (v := v) hs'.sound hrule
          (fun ts hts => ((hgroups g hg).2 ts hts).mono hs'.later) hbest)
  · simp only at hnew ⊢
    split at hnew
    · rename_i hlt
      obtain rfl := Option.some.inj hnew
      exact ⟨rfl, hlt⟩
    · exact absurd hnew (by simp)

end Language

/-! ## Renumbering -/

namespace Stack

/-- Putting a head in the place of one in front of it. The heads behind it move up. -/
theorem renumber_heads {source target : Nat} {h old : Head σ} (hlt : target < source)
    (hh : s.heads[source]? = some h) (ho : s.heads[target]? = some old) (i : Nat) :
    (s.renumber source target).heads[i]? =
      if i < source then
        if target = i then some { h with landmarks := h.landmarks.or old.landmarks } else s.heads[i]?
      else s.heads[i + 1]? := by
  unfold renumber
  rw [if_neg (Nat.ne_of_gt hlt), hh, ho]
  simp only
  rw [← Array.getElem?_toList, Array.toList_eraseIdxIfInBounds, List.getElem?_eraseIdx]
  simp only [Array.getElem?_toList, Array.getElem?_setIfInBounds]
  have := lt_of_head ho
  split
  · split
    · simp_all
    · rfl
  · rw [if_neg (by omega)]

theorem renumber_nodes (s : Stack σ) (source target : Nat) :
    (s.renumber source target).nodes = s.nodes := by
  unfold renumber
  split
  · rfl
  · split <;> rfl

theorem renumber_sound (hs : s.Sound D cs) {source target : Nat} {h old : Head σ}
    (hlt : target < source) (hh : s.heads[source]? = some h) (ho : s.heads[target]? = some old) :
    (s.renumber source target).Sound D cs ∧ s.Extends D (s.renumber source target) := by
  have heq : s.renumber source target = { s with heads := (s.renumber source target).heads } := by
    rw [← renumber_nodes s source target]
  rw [heq]
  refine ⟨sound_withHeads hs fun {i x} hx => ?_, extends_withHeads s _⟩
  rw [renumber_heads hlt hh ho] at hx
  split at hx
  · split at hx
    · rw [← Option.some.inj hx]
      exact (hs.heads hh).congr rfl rfl
    · exact hs.heads hx
  · exact hs.heads hx

end Stack

namespace Language

open Stack

/-! ## Completing all rules -/

/-- The rules that could be completed in a state are those that are completed there for some token. -/
theorem possible_reduce {state rule count : Nat} (terminal : Option Nat)
    {aliases : List (Option Label)}
    (h : (rule, count, aliases) ∈ (lang.possible state terminal).2) :
    ∃ symbol again, lang.table.action? state symbol = some (.reduce rule count aliases again) := by
  -- the rules that are collected, whatever symbols are left
  suffices hinv : ∀ r ∈ (lang.possible state terminal).2, ∃ symbol again,
      lang.table.action? state symbol = some (.reduce r.1 r.2.1 r.2.2 again) from
    hinv (rule, count, aliases) h
  unfold possible
  refine List.foldlRecOn (motive := fun (acc : Bool × List (Nat × Nat × List (Option Label))) =>
    ∀ r ∈ acc.2, ∃ symbol again,
      lang.table.action? state symbol = some (.reduce r.1 r.2.1 r.2.2 again)) _ _ (by simp) ?_
  intro ⟨canShift, rules⟩ hacc symbol _
  simp only
  split
  · exact hacc
  · exact hacc
  · rename_i rule count aliases again haction
    split
    · intro r hr
      rcases List.mem_append.mp hr with hr | hr
      · exact hacc r hr
      · rw [List.mem_singleton.mp hr]
        exact ⟨symbol, again, haction⟩
    · exact hacc
  · exact hacc

/-- While rules are completed from head `first` on, the heads in front of it are kept; it and those
from `base` on are followed, at one place. -/
structure Completes (D : Discipline lang) (cs : List Char) (first base : Nat) (place : Place)
    (s s' : Stack σ) : Prop where
  sound : s'.Sound D cs
  later : s.Extends D s'
  keeps : Keeps first s s'
  holds : s'.Holds (fun i => i = first ∨ base ≤ i) place
  size : base ≤ s'.heads.size ∨ base = first + 1

section

variable {first base v : Nat}

theorem Completes.size_le (h : Completes D cs first base place s s') (hv : v = first ∨ base ≤ v)
    {x : Head σ}
    (hx : s'.heads[v]? = some x) : base ≤ s'.heads.size := by
  have := lt_of_head hx
  rcases h.size with h | h <;> omega

theorem Completes.reduce (h : Completes D cs first base place s s') (hfirst : first < base)
    (hsize : base ≤ s'.heads.size) (hg : Grows D cs s'.heads.size place s' s'') :
    Completes D cs first base place s s'' :=
  ⟨hg.sound, h.later.trans hg.later, h.keeps.trans (hg.keeps.of_le (by omega)),
    hg.holds_of h.sound h.holds, .inl (Nat.le_trans hsize hg.size)⟩

theorem Completes.merge [DecidableEq σ] (h : Completes D cs first base place s s')
    (hfirst : first < base) {x : Head σ} (hx : s'.heads[v]? = some x)
    (hm : s'.mergeInto? lang.initial v ((List.range v).filter (base ≤ ·)) = some s'') :
    Completes D cs first base place s s'' := by
  have hlt : base < v := by
    by_contra hle
    rw [List.filter_eq_nil_iff.mpr fun a ha => ?_] at hm
    · exact absurd hm (by simp [mergeInto?])
    · have := List.mem_range.mp ha
      simp only [decide_eq_true_eq]
      omega
  obtain ⟨hs, he, hk, hfrom⟩ := mergeInto?_spec lang.initial h.sound
    (fun a ha => List.mem_range.mp (List.mem_filter.mp ha).1) hm
  refine ⟨hs, h.later.trans he, h.keeps.trans (hk.of_le (by omega)), fun i x hi hx => ?_, ?_⟩
  · obtain ⟨y, hy, hn, hst⟩ := hfrom i x hx
    refine h.holds.carry h.sound he ?_ hy hn hst
    split <;> omega
  · have := hk.size (Nat.le_of_lt (lt_of_head hx))
    omega

theorem Completes.renumber (h : Completes D cs first base place s s') (hfirst : first < base)
    (hv : v = first ∨ base ≤ v) {new : Nat} (hlt : v < new) (hbase : base ≤ new) (hnew : new < s'.heads.size) :
    Completes D cs first base place s (s'.renumber new v) := by
  obtain ⟨x, hx⟩ := exists_head hnew
  obtain ⟨y, hy⟩ := exists_head (Nat.lt_trans hlt hnew)
  obtain ⟨hs, he⟩ := renumber_sound h.sound hlt hx hy
  have hheads := renumber_heads hlt hx hy
  refine ⟨hs, h.later.trans he, h.keeps.trans fun i hi z hz => ⟨z, ?_, rfl, rfl⟩,
    fun i z hi hz => ?_, .inl ?_⟩
  · rw [hheads, if_pos (by omega), if_neg (by omega), hz]
  · rw [hheads] at hz
    split at hz
    · split at hz
      · rw [← Option.some.inj hz]
        exact h.holds.carry h.sound he (.inr hbase) hx rfl rfl
      · exact h.holds.carry h.sound he hi hz rfl rfl
    · exact h.holds.carry h.sound he (j := i + 1) (.inr (by omega)) hz rfl rfl
  · by_contra hsize
    have hnone : (s'.renumber new v).heads[base - 1]? = none :=
      Array.getElem?_eq_none (by omega)
    rw [hheads, if_pos (by omega)] at hnone
    split at hnone
    · exact absurd hnone (by simp)
    · exact absurd (Array.getElem?_eq_none_iff.mp hnone) (by omega)

theorem Completes.remove (h : Completes D cs first base place s s') (hv : v = first ∨ base ≤ v)
    (hbase : base = first + 1) :
    Completes D cs first base place s (s'.removeHead v) := by
  refine ⟨removeHead_sound h.sound v, h.later.trans (extends_withHeads s' _),
    h.keeps.trans fun i hi x hx => ⟨x, ?_, rfl, rfl⟩, fun i x hi hx => ?_, .inr hbase⟩
  · rw [getElem?_removeHead, if_pos (by omega), hx]
  · rw [getElem?_removeHead] at hx
    split at hx
    · exact h.holds.carry h.sound (extends_withHeads s' _) hi hx rfl rfl
    · exact h.holds.carry h.sound (extends_withHeads s' _) (j := i + 1) (by omega) hx rfl rfl

end

variable [DecidableEq σ]

/-- Completing several rules on top of one head. -/
theorem reduceAll_grows {v state : Nat} {rules : List (Nat × Nat × List (Option Label))}
    (hs : s.Sound D cs) (hv : s.Standing v place state)
    (hrules : ∀ r ∈ rules, ∃ symbol again,
      lang.table.action? state symbol = some (.reduce r.1 r.2.1 r.2.2 again)) :
    let r := rules.foldl
      (fun ((s, _) : Stack σ × Option Nat) (rule, n, aliases) => lang.reduce s v rule n aliases)
      (s, none)
    Grows D cs s.heads.size place s r.1 ∧
      ∀ new, r.2 = some new → s.heads.size ≤ new ∧ new < r.1.heads.size := by
  intro r
  refine List.foldlRecOn (motive := fun (acc : Stack σ × Option Nat) =>
    Grows D cs s.heads.size place s acc.1 ∧
      ∀ new, acc.2 = some new → s.heads.size ≤ new ∧ new < acc.1.heads.size) _ _
    ⟨.refl hs place, by simp⟩ fun acc ⟨hacc, _⟩ r hr => ?_
  obtain ⟨symbol, again, haction⟩ := hrules r hr
  obtain ⟨x, hx, ha, rfl, rfl⟩ := hv.mono hs hacc.later hacc.keeps (lt_of_head hv.choose_spec.1)
  obtain ⟨hgrows, hnew⟩ := reduce_grows hacc.sound hx ha haction
  refine ⟨hacc.trans hgrows, fun new h => ?_⟩
  obtain ⟨rfl, hlt⟩ := hnew new h
  exact ⟨hacc.size, hlt⟩

/-- What `completeFrom` does, from any head it has come to. -/
theorem completeFrom_spec {terminal : Option Nat} {first base : Nat} (hfirst : first < base)
    (hterminal : terminal.isSome = true → base = first + 1) (fuel round : Nat) {v : Nat}
    (canShift : Bool) (hv : v = first ∨ base ≤ v)
    (h : Completes D cs first base place s s') :
    Completes D cs first base place s
      (lang.completeFrom terminal first base fuel round v canShift s').1 := by
  induction fuel generalizing round v canShift s' with
  | zero => exact h
  | succ fuel ih =>
    rw [completeFrom]
    split
    · exact h
    · rename_i x hx
      split
      · rename_i merged hm
        exact ih _ _ hv (h.merge hfirst hx hm)
      · obtain ⟨ha, hp⟩ := h.holds v x hv hx
        obtain ⟨hg, hnew⟩ := reduceAll_grows h.sound ⟨x, hx, ha, hp, rfl⟩
          fun r hr => possible_reduce terminal hr
        have hsize := h.size_le hv hx
        have hstep := h.reduce hfirst hsize hg
        have hnext : (if v = first then s'.heads.size else v + 1) = first ∨
            base ≤ (if v = first then s'.heads.size else v + 1) := by
          split <;> omega
        have hdrop : ∀ {s''}, Completes D cs first base place s s'' →
            Completes D cs first base place s
              (if terminal.isSome then s''.removeHead v else s'') := by
          intro s'' h
          split
          · rename_i ht
            exact h.remove hv (hterminal ht)
          · exact h
        simp only
        split
        · exact ih _ _ hnext hstep
        · split
          · rename_i new hlast
            obtain ⟨hle, hlt⟩ := hnew new hlast
            split
            · refine ih _ _ hv (hstep.renumber hfirst hv ?_ ?_ hlt)
              · exact Nat.lt_of_lt_of_le (lt_of_head hx) hle
              · exact Nat.le_trans hsize hle
            · exact ih _ _ hnext (hdrop hstep)
          · exact ih _ _ hnext (hdrop hstep)

/-- Completing all rules that could be completed on top of a head. -/
theorem completeAll_spec (terminal : Option Nat) {v : Nat} {h : Head σ} (hs : s.Sound D cs)
    (hv : s.heads[v]? = some h) (ha : h.status = .active)
    (hterminal : terminal.isSome = true → s.heads.size = v + 1) :
    Completes D cs v s.heads.size (s.top h).place s (lang.completeAll s v terminal).1 := by
  refine completeFrom_spec (lt_of_head hv) hterminal _ _ _ (.inl rfl)
    ⟨hs, .refl s, .refl v s, fun i x hi hx => ?_, .inl (Nat.le_refl _)⟩
  rcases hi with rfl | hi
  · obtain rfl : h = x := Option.some.inj (hv.symm.trans hx)
    exact ⟨ha, rfl⟩
  · have := lt_of_head hx
    omega

end Language

end BaselineAudit.Parsing
