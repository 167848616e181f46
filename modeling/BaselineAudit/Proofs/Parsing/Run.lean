import BaselineAudit.Proofs.Parsing.Recovery

/-!
# Runs of the parser

Every step of the parser keeps its invariant, so the tree of a text is sound and covers a first part of
the text.

* `Language.advance_ok`: reading a token and doing what the table says for it.
* `Language.condense_ok`: giving up ways of parsing.
* `Language.parse_whole`: what is parsed.
-/

namespace BaselineAudit.Parsing

variable {σ : Type} {lang : Language σ} {D : Discipline lang} {cs : List Char}
  {s s' : Stack σ} {place : Place}

namespace Language

open Stack

/-- The stack of a parser at the start of a text. -/
theorem start_sound (D : Discipline lang) (cs : List Char) (memory : σ) :
    (Stack.start (.start cs) memory).Sound D cs := by
  have hnode : (Stack.start (.start cs) memory).node 0 = ⟨1, [], .start cs, 0, 0⟩ := rfl
  refine ⟨fun n hn => ?_, fun {i h} hi => ?_⟩
  · obtain rfl : n = 0 := Nat.lt_one_iff.mp hn
    exact ⟨hnode ▸ Place.of_start cs, fun _ => by rw [hnode], fun l hl => absurd hl (by simp [hnode])⟩
  · have hmem := Array.mem_of_getElem? hi
    obtain rfl : h = ⟨0, 0, memory, .active, none⟩ := by simpa [Stack.start] using hmem
    refine ⟨Nat.zero_lt_one, fun _ => ⟨(· = 0), fun n hn => ?_, rfl⟩, by simp⟩
    subst hn
    exact ⟨Nat.zero_lt_one, fun l hl => absurd hl (by simp [hnode])⟩

/-! ## Taking a token -/

/-- Taking a token that fits on top of a head. -/
theorem take_ok {r : Run σ} {v next : Nat} {h : Head σ} {lookahead t : Tree σ} (hr : r.Ok D cs)
    (hv : r.stack.heads[v]? = some h) (ha : h.status = .active)
    (hl : lookahead.Fits (r.stack.top h).place) (ht : D.sound t)
    (hc : ∀ {w}, lookahead.Covers w → t.Covers w)
    (hj : D.joins (r.stack.top h).state (some t) next) :
    Run.Ok D cs { r with stack := remember (r.stack.push v (some t) next) v t } := by
  obtain ⟨w, q, hw, hq⟩ := hl
  exact hr.withStack (remember_sound (push_sound next hr.stack hv ha
    (show D.Between _ (some t) q from ⟨ht, w, hc hw, hq⟩) hj).1 t)

variable [DecidableEq σ]

/-- Completing a rule on the way to taking a token. -/
theorem reduceHead_ok {r : Run σ} {v new rule count symbol : Nat} {aliases : List (Option Label)}
    {again : Option Nat} {h : Head σ} (hr : r.Ok D cs) (hv : r.stack.heads[v]? = some h)
    (ha : h.status = .active)
    (hrule : lang.table.action? (r.stack.top h).state symbol =
      some (.reduce rule count aliases again))
    (hnew : (lang.reduce r.stack v rule count aliases).2 = some new) :
    ((lang.reduce r.stack v rule count aliases).1.renumber new v).Sound D cs ∧
      ((lang.reduce r.stack v rule count aliases).1.renumber new v).Holds (· = v)
        (r.stack.top h).place := by
  obtain ⟨hg, hsize⟩ := reduce_grows hr.stack hv ha hrule
  obtain ⟨rfl, hlt⟩ := hsize new hnew
  obtain ⟨x, hx⟩ := exists_head hlt
  obtain ⟨y, hy, -⟩ := hg.keeps v (lt_of_head hv) h hv
  obtain ⟨hs, he⟩ := renumber_sound hg.sound (lt_of_head hv) hx hy
  refine ⟨hs, fun i z hi hz => ?_⟩
  subst hi
  rw [renumber_heads (lt_of_head hv) hx hy, if_pos (lt_of_head hv), if_pos rfl] at hz
  rw [← Option.some.inj hz]
  exact hg.holds.carry hg.sound he (Nat.le_refl _) hx rfl rfl

omit [DecidableEq σ] in
/-- The table says something for tokens only. -/
theorem exists_symbol {lookahead : Tree σ} {state : Nat} {action : Action}
    (h : (match lookahead.kind with
      | .symbol n => lang.table.action? state n
      | _ => none) = some action) :
    ∃ n, lookahead.kind = .symbol n ∧ lang.table.action? state n = some action := by
  split at h
  · rename_i n hk
    exact ⟨n, hk, h⟩
  · exact absurd h (by simp)

/-- Doing what the table says for a token, until it is taken. -/
theorem actFrom_ok {r : Run σ} {v : Nat} {lookahead : Tree σ} (fuel : Nat) (hr : r.Ok D cs)
    (hv : r.stack.Holds (· = v) place) (hl : Awaits D place lookahead) :
    (lang.actFrom v lookahead fuel r).Ok D cs := by
  induction fuel generalizing r with
  | zero => exact hr.withStack (halt_sound hr.stack v)
  | succ fuel ih =>
    rw [actFrom]
    split
    · exact hr
    · rename_i h hh
      obtain ⟨ha, hp⟩ := hv v h rfl hh
      have hfits : lookahead.Fits (r.stack.top h).place := hp ▸ hl.fits
      simp only
      split
      · rename_i next heq
        obtain ⟨n, hk, hact⟩ := exists_symbol heq
        exact take_ok hr hh ha hfits (D.token_sound hl.token (by simp))
          (fun hw => hw.congr rfl rfl rfl) (D.shift_joins hl.token hk hact)
      · rename_i heq
        obtain ⟨n, hk, -⟩ := exists_symbol heq
        have hsound := D.token_sound (b := true) hl.token (by simp [hk])
        exact take_ok hr hh ha hfits hsound (fun hw => hw.congr rfl rfl rfl)
          (D.extra_joins hsound rfl)
      · rename_i rule count aliases again heq
        obtain ⟨n, -, hact⟩ := exists_symbol heq
        have hg := (reduce_grows hr.stack hh ha hact).1
        cases hred : lang.reduce r.stack v rule count aliases with
        | mk s' new =>
          cases new with
          | none =>
            rw [hred] at hg
            exact hr.withStack (halt_sound hg.sound v)
          | some new =>
            have hstep := reduceHead_ok hr hh ha hact (congrArg Prod.snd hred)
            rw [hred, hp] at hstep
            exact ih (hr.withStack hstep.1) hstep.2
      · rename_i heq
        obtain ⟨n, hk, hact⟩ := exists_symbol heq
        have hend := (D.accept_end hact).1
        exact accept_ok hr.fair hr.stack.nodes hh (fun i x _ hx => hr.stack.heads hx)
          (hr.stack.heads hh).lt
          (ripe_of_good ((hr.stack.heads hh).good (by rw [ha]; rfl)) hact) hl.sound
          ((D.token_extra hl.token).mpr (hend ▸ hk)) hfits
      · exact recover_ok hr hv hl
      · refine hr.withStack (modifyHead_sound hr.stack v _ fun x hx => ?_)
        obtain rfl : h = x := Option.some.inj (hh.symm.trans hx)
        refine ⟨(hr.stack.heads hh).lt, fun _ => (hr.stack.heads hh).good (by rw [ha]; rfl),
          fun t ht => ?_⟩
        obtain rfl : lookahead = t := by simpa using ht
        exact ⟨hl.token, hfits⟩

/-- Reading a token and doing what the table says for it. -/
theorem advance_ok {r : Run σ} {v : Nat} {h : Head σ} (hr : r.Ok D cs)
    (hv : r.stack.heads[v]? = some h) (ha : h.status = .active) : (lang.advance r v).Ok D cs := by
  have hplace : (r.stack.top h).place.Of cs := (hr.stack.nodes _ (hr.stack.heads hv).lt).place
  have hholds : r.stack.Holds (· = v) (r.stack.top h).place := by
    intro i x hi hx
    subst hi
    obtain rfl : h = x := Option.some.inj (hv.symm.trans hx)
    exact ⟨ha, rfl⟩
  unfold advance
  rw [hv]
  simp only
  cases hknown : r.lastToken.filter fun t => t.bytes == (r.stack.top h).place.bytes &&
      t.memory == h.memory && lang.canReuse (r.stack.top h).state t.tree with
  | some l =>
    obtain ⟨hlast, hcond⟩ := Option.filter_eq_some_iff.mp hknown
    obtain ⟨htoken, hfits⟩ := hr.fair.last l hlast
    simp only [Bool.and_eq_true, beq_iff_eq] at hcond
    exact actFrom_ok _ hr hholds ⟨htoken, hfits _ hplace hcond.1.1.symm⟩
  | none =>
    have htoken : D.token (lang.lex r.stack h (r.stack.top h).state) := D.lex_token
    have hfits := (lex_fits D.forward r.stack h (r.stack.top h).state).1
    refine actFrom_ok (r := { r with lastToken := _ }) _ ⟨⟨hr.fair.finished, fun l hl => ?_⟩, hr.stack⟩
      hholds ⟨htoken, hfits⟩
    rw [← Option.some.inj hl]
    refine ⟨htoken, fun p hp hbytes => ?_⟩
    rw [hp.eq_of_bytes hplace hbytes]
    exact hfits

/-! ## Giving up ways of parsing -/

/-- Comparing a head with those in front of it. -/
theorem compareFrom_sound (initial : σ) (own : Standing) (fuel i j : Nat) (hs : s.Sound D cs) :
    (compareFrom initial own fuel i j s).1.Sound D cs := by
  induction fuel generalizing i j s with
  | zero => exact hs
  | succ fuel ih =>
    rw [compareFrom]
    split
    · exact hs
    · rename_i hij
      split
      · exact hs
      · rename_i h hh
        split
        · exact removeHead_sound hs i
        · split
          · rename_i hm
            exact (merge?_spec initial hs (by omega) hm).1
          · exact ih i (j + 1) hs
        · split
          · rename_i hm
            exact (merge?_spec initial hs (by omega) hm).1
          · exact ih i (j + 1) hs
        · split
          · rename_i hm
            exact (merge?_spec initial hs (by omega) hm).1
          · split
            · exact hs
            · rename_i x hx
              refine ih i (j + 1) (sound_withHeads hs fun {k y} hy => ?_)
              rw [Array.getElem?_setIfInBounds, Array.getElem?_setIfInBounds] at hy
              split at hy
              · split at hy
                · exact Option.some.inj hy ▸ hs.heads hx
                · exact absurd hy (by simp)
              · split at hy
                · split at hy
                  · exact Option.some.inj hy ▸ hs.heads hh
                  · exact absurd hy (by simp)
                · exact hs.heads hy
        · exact ih (i - 1) j (removeHead_sound hs j)

/-- Giving up heads that are worse than others. -/
theorem weedFrom_sound (initial : σ) (fuel i : Nat) (least : Option Nat) (hs : s.Sound D cs) :
    (weedFrom initial fuel i least s).1.Sound D cs := by
  induction fuel generalizing i least s with
  | zero => exact hs
  | succ fuel ih =>
    rw [weedFrom]
    split
    · exact hs
    · rename_i h _
      have hc := compareFrom_sound initial (standing s h) (2 * s.heads.size + 2) i 0 hs
      split
      · exact ih i least (removeHead_sound hs i)
      · exact ih _ _ hc

/-- Taking up a head that stopped. -/
theorem resumeFrom_ok {r : Run σ} (fuel i count : Nat) (going : Bool) (least : Option Nat)
    (hr : r.Ok D cs) : (lang.resumeFrom fuel i count going least r).1.Ok D cs := by
  induction fuel generalizing i count going least r with
  | zero => exact hr
  | succ fuel ih =>
    rw [resumeFrom]
    split
    · exact hr
    · split
      · exact hr
      · rename_i h hh
        split
        · rename_i lookahead hpaused
          split
          · refine ih (i + 1) count true _ ?_
            obtain ⟨htoken, hfits⟩ := (hr.stack.heads hh).paused lookahead hpaused
            have hgood := (hr.stack.heads hh).good (by rw [hpaused]; rfl)
            have hself : (r.stack.modifyHead i fun h => { h with status := .active }).heads[i]? =
                some { h with status := .active } := by
              rw [getElem?_modifyHead, if_pos rfl, hh]
              rfl
            have hl : Awaits D (r.stack.top h).place lookahead := ⟨htoken, hfits⟩
            refine handleError_ok (r := { r with stack := _ })
              (hr.withStack (modifyHead_sound hr.stack i _ fun x hx => ?_)) (fun k x hk hx => ?_)
              (lt_of_head hself) hl
            · obtain rfl : h = x := Option.some.inj (hh.symm.trans hx)
              exact ⟨hgood.lt, fun _ => hgood, by simp⟩
            · subst hk
              rw [← Option.some.inj (hself.symm.trans hx)]
              exact ⟨rfl, rfl⟩
          · exact ih i (count - 1) going least (hr.withStack (removeHead_sound hr.stack i))
        · exact ih (i + 1) count true least hr

/-- Thinning out the heads. -/
theorem condense_ok {r : Run σ} (hr : r.Ok D cs) : (lang.condense r).1.Ok D cs := by
  unfold condense
  simp only
  have hs := weedFrom_sound lang.initial (4 * r.stack.lowered.heads.size + 4) 0 none
    (lowered_carries hr.stack).sound
  refine resumeFrom_ok _ _ _ _ _ (hr.withStack (sound_withHeads hs fun {i x} hx => ?_))
  rw [Array.getElem?_extract] at hx
  split at hx
  · exact hs.heads hx
  · exact absurd hx (by simp)

/-! ## Whole runs -/

theorem runHead_ok {r : Run σ} (v fuel reached : Nat) (hr : r.Ok D cs) :
    (lang.runHead v fuel reached r).1.Ok D cs := by
  induction fuel generalizing reached r with
  | zero => exact hr
  | succ fuel ih =>
    rw [runHead]
    split
    · exact hr
    · rename_i h hh
      split
      · rename_i hactive
        have ha : h.status = .active := by
          cases hst : h.status <;> simp_all [Status.isActive]
        have hnext := advance_ok hr hh ha
        simp only
        split
        · exact hnext
        · split
          · exact hnext
          · exact ih reached hnext
      · exact hr

theorem runHeads_ok {r : Run σ} (fuel v reached : Nat) (hr : r.Ok D cs) :
    (lang.runHeads fuel v reached r).1.Ok D cs := by
  induction fuel generalizing v reached r with
  | zero => exact hr
  | succ fuel ih =>
    rw [runHeads]
    split
    · exact ih _ _ (runHead_ok v 10000 reached hr)
    · exact hr

theorem runFrom_whole {r : Run σ} {t : Tree σ} (fuel reached : Nat) (hr : r.Ok D cs)
    (h : lang.runFrom fuel reached r = some t) : D.Whole cs t := by
  induction fuel generalizing reached r with
  | zero => exact hr.fair.finished t h
  | succ fuel ih =>
    have hround := condense_ok (runHeads_ok 1000 0 reached hr)
    rw [runFrom] at h
    simp only at h
    split at h
    · exact hround.fair.finished t h
    · exact ih _ hround h

/-- The tree of a text is made of sound parts and covers a first part of it. -/
theorem parse_whole (D : Discipline lang) {t : Tree σ} (h : lang.parse cs = some t) :
    D.Whole cs t :=
  runFrom_whole _ _ ⟨⟨by simp, by simp⟩, start_sound D cs lang.initial⟩ h

end Language

end BaselineAudit.Parsing
