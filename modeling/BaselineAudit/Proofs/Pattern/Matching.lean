import BaselineAudit.Pattern.Basic
import Mathlib.Data.List.Basic
import Mathlib.Data.List.Forall2

/-!
# What patterns match

`Pattern.Matches` says what a pattern matches, one rule for each way to build a pattern and without
following it through a text.

* `Pattern.none_mem_step`, `Pattern.matches_cons_iff`: a step is done where nothing is matched, and
  takes the first character of a match.
* `Pattern.matches_of_matchLength`, `Pattern.isSome_matchLength`: following a pattern through a text
  finds a match, if there is one.
* `Pattern.Consumes.occurs_iff`: so a search finds a pattern exactly where it matches a part of the text.
* `Pattern.count_eq`: a count up to a cap is the number of all matches, capped.
* `Pattern.takes_iff_matches`: without anchors it does not matter what stands around a match.
-/

namespace BaselineAudit

namespace CharSet

@[simp] theorem contains_none (c : Char) : none.contains c = false := by
  have h : ¬('b' ≤ c ∧ c ≤ 'a') := fun h => absurd (Char.le_trans h.1 h.2) (by decide)
  simpa [none, contains] using h

@[simp] theorem contains_ofText (s : String) (c : Char) : (ofText s).contains c = s.toList.contains c := by
  unfold ofText
  induction s.toList with
  | nil => simp
  | cons d ds ih =>
    rw [List.foldr_cons, contains, ih, contains, List.contains_cons, BEq.comm]

@[simp] theorem contains_except (s : String) (c : Char) :
    (except s).contains c = !s.toList.contains c := by
  rw [except, contains, contains_ofText]

end CharSet

namespace Pattern

/-! ## Matches -/

/-- A pattern matches `found`, which stands behind the character `before` and in front of `rest`. -/
inductive Matches : Pattern → (before : Option Char) → (found rest : List Char) → Prop
  | empty {before rest} : Matches .empty before [] rest
  | set {s c before rest} : s.contains c = true → Matches (.set s) before [c] rest
  | anchor {a before rest} : a.holds before rest.head? = true → Matches (.anchor a) before [] rest
  | seq {p q before u v rest} : Matches p before u (v ++ rest) →
      Matches q (u.getLast?.or before) v rest → Matches (.seq p q) before (u ++ v) rest
  | left {p q before u rest} : Matches p before u rest → Matches (.alt p q) before u rest
  | right {p q before u rest} : Matches q before u rest → Matches (.alt p q) before u rest
  | stop {p before rest} : Matches (.star p) before [] rest
  | more {p before u v rest} : u ≠ [] → Matches p before u (v ++ rest) →
      Matches (.star p) (u.getLast?.or before) v rest → Matches (.star p) before (u ++ v) rest

section Rules

variable {p q : Pattern} {before : Option Char} {w rest : List Char}

@[simp] theorem matches_empty_iff : Matches .empty before w rest ↔ w = [] := by
  constructor
  · intro h; cases h; rfl
  · rintro rfl; exact .empty

@[simp] theorem matches_set_iff {s : CharSet} :
    Matches (.set s) before w rest ↔ ∃ c, s.contains c = true ∧ w = [c] := by
  constructor
  · intro h
    cases h with
    | set hc => exact ⟨_, hc, rfl⟩
  · rintro ⟨c, hc, rfl⟩
    exact .set hc

@[simp] theorem matches_anchor_iff {a : Anchor} :
    Matches (.anchor a) before w rest ↔ w = [] ∧ a.holds before rest.head? = true := by
  constructor
  · intro h
    cases h with
    | anchor ha => exact ⟨rfl, ha⟩
  · rintro ⟨rfl, ha⟩
    exact .anchor ha

theorem matches_seq_iff : Matches (.seq p q) before w rest ↔
    ∃ u v, w = u ++ v ∧ Matches p before u (v ++ rest) ∧ Matches q (u.getLast?.or before) v rest := by
  constructor
  · intro h
    cases h with
    | seq hu hv => exact ⟨_, _, rfl, hu, hv⟩
  · rintro ⟨u, v, rfl, hu, hv⟩
    exact .seq hu hv

theorem matches_alt_iff : Matches (.alt p q) before w rest ↔
    Matches p before w rest ∨ Matches q before w rest := by
  constructor
  · intro h
    cases h with
    | left h => exact .inl h
    | right h => exact .inr h
  · rintro (h | h)
    · exact .left h
    · exact .right h

theorem matches_star_iff : Matches (.star p) before w rest ↔
    w = [] ∨ ∃ u v, u ≠ [] ∧ w = u ++ v ∧ Matches p before u (v ++ rest) ∧
      Matches (.star p) (u.getLast?.or before) v rest := by
  constructor
  · intro h
    cases h with
    | stop => exact .inl rfl
    | more hne hu hv => exact .inr ⟨_, _, hne, rfl, hu, hv⟩
  · rintro (rfl | ⟨u, v, hne, rfl, hu, hv⟩)
    · exact .stop
    · exact .more hne hu hv

/-- The character in front of what follows a match that starts with `c`. -/
theorem getLast?_cons_or (c : Char) (u : List Char) (before : Option Char) :
    (c :: u).getLast?.or before = u.getLast?.or (some c) := by
  rw [List.getLast?_cons]
  cases u.getLast? <;> rfl

theorem getLast?_append_or (u v : List Char) (before : Option Char) :
    (u ++ v).getLast?.or before = v.getLast?.or (u.getLast?.or before) := by
  rw [List.getLast?_append, Option.or_assoc]

theorem matches_seq_assoc {r : Pattern} :
    Matches (.seq (.seq p q) r) before w rest ↔ Matches (.seq p (.seq q r)) before w rest := by
  simp only [matches_seq_iff]
  constructor
  · rintro ⟨_, z, rfl, ⟨x, y, rfl, hx, hy⟩, hz⟩
    rw [getLast?_append_or] at hz
    exact ⟨x, y ++ z, List.append_assoc .., by rwa [List.append_assoc], y, z, rfl, hy, hz⟩
  · rintro ⟨x, _, rfl, hx, y, z, rfl, hy, hz⟩
    rw [← getLast?_append_or] at hz
    rw [List.append_assoc] at hx
    exact ⟨x ++ y, z, (List.append_assoc ..).symm, ⟨x, y, rfl, hx, hy⟩, hz⟩

theorem matches_followedBy_iff :
    Matches (followedBy p q) before w rest ↔ Matches (.seq p q) before w rest := by
  unfold followedBy
  split
  next hp =>
    subst hp
    rw [matches_seq_iff]
    constructor
    · intro h
      exact ⟨[], w, rfl, .empty, h⟩
    · rintro ⟨u, v, rfl, hu, hv⟩
      obtain rfl := matches_empty_iff.mp hu
      exact hv
  next => rfl

end Rules

/-! ## Steps -/

section Steps

variable {p : Pattern} {before : Option Char}

/-- A step is done where the pattern matches without a character. -/
theorem none_mem_step {rest : List Char} :
    none ∈ step before rest.head? p ↔ Matches p before [] rest := by
  induction p with
  | empty => simp [step]
  | set s => simp [step]
  | anchor a => simp [step]
  | seq p q ihp ihq =>
    rw [step, List.mem_flatMap, matches_seq_iff]
    constructor
    · rintro ⟨o, ho, hq⟩
      cases o with
      | none => exact ⟨[], [], rfl, ihp.mp ho, ihq.mp hq⟩
      | some p' => simp at hq
    · rintro ⟨u, v, huv, hu, hv⟩
      obtain ⟨rfl, rfl⟩ := List.append_eq_nil_iff.mp huv.symm
      exact ⟨none, ihp.mpr hu, ihq.mpr hv⟩
  | alt p q ihp ihq => rw [step, List.mem_append, ihp, ihq, matches_alt_iff]
  | star p =>
    rw [step]
    exact ⟨fun _ => .stop, fun _ => List.mem_append_right _ (List.mem_singleton_self _)⟩

/-- A step takes the first character of a match and leaves a pattern for the others. -/
theorem matches_cons_iff {c : Char} {w rest : List Char} :
    Matches p before (c :: w) rest ↔
      ∃ p', some p' ∈ step before (some c) p ∧ Matches p' (some c) w rest := by
  induction p generalizing w rest with
  | empty => simp [step]
  | set s => by_cases hc : s.contains c = true <;> simp [step, hc]
  | anchor a => simp [step]
  | seq p q ihp ihq =>
    rw [matches_seq_iff]
    constructor
    · rintro ⟨u, v, huv, hu, hv⟩
      rcases List.cons_eq_append_iff.mp huv with ⟨rfl, rfl⟩ | ⟨u, rfl, rfl⟩
      · obtain ⟨q', hq', hw⟩ := ihq.mp hv
        refine ⟨q', ?_, hw⟩
        exact List.mem_flatMap.mpr ⟨none, none_mem_step.mpr hu, hq'⟩
      · obtain ⟨p', hp', hw⟩ := ihp.mp hu
        rw [getLast?_cons_or] at hv
        refine ⟨followedBy p' q, ?_, matches_followedBy_iff.mpr (.seq hw hv)⟩
        exact List.mem_flatMap.mpr ⟨some p', hp', List.mem_singleton_self _⟩
    · rintro ⟨p', hp', hw⟩
      obtain ⟨o, ho, hp'⟩ := List.mem_flatMap.mp hp'
      cases o with
      | none =>
        refine ⟨[], c :: w, rfl, ?_, ihq.mpr ⟨p', hp', hw⟩⟩
        exact none_mem_step.mp ho
      | some p₁ =>
        obtain rfl : p' = followedBy p₁ q := by simpa using hp'
        obtain ⟨u, v, rfl, hu, hv⟩ := matches_seq_iff.mp (matches_followedBy_iff.mp hw)
        refine ⟨c :: u, v, rfl, ihp.mpr ⟨p₁, ho, hu⟩, ?_⟩
        rwa [getLast?_cons_or]
  | alt p q ihp ihq =>
    rw [matches_alt_iff, ihp, ihq, step]
    simp only [List.mem_append, or_and_right, exists_or]
  | star p ih =>
    rw [matches_star_iff]
    constructor
    · rintro (h | ⟨u, v, hne, huv, hu, hv⟩)
      · exact absurd h (List.cons_ne_nil _ _)
      · -- a turn of the repetition is never empty, so the character is the first of its turn
        rcases List.cons_eq_append_iff.mp huv with ⟨rfl, -⟩ | ⟨u, rfl, rfl⟩
        · exact absurd rfl hne
        · obtain ⟨p', hp', hw⟩ := ih.mp hu
          rw [getLast?_cons_or] at hv
          refine ⟨followedBy p' (star p), ?_, matches_followedBy_iff.mpr (.seq hw hv)⟩
          exact List.mem_append_left _ (List.mem_filterMap.mpr ⟨some p', hp', rfl⟩)
    · rintro ⟨p', hp', hw⟩
      rw [step, List.mem_append, List.mem_filterMap] at hp'
      rcases hp' with ⟨o, ho, hp'⟩ | hp'
      · cases o with
        | none => simp at hp'
        | some p₁ =>
          obtain rfl : followedBy p₁ (star p) = p' := by simpa using hp'
          obtain ⟨u, v, rfl, hu, hv⟩ := matches_seq_iff.mp (matches_followedBy_iff.mp hw)
          refine .inr ⟨c :: u, v, List.cons_ne_nil _ _, rfl, ih.mpr ⟨p₁, ho, hu⟩, ?_⟩
          rwa [getLast?_cons_or]
      · simp at hp'

end Steps

/-! ## Following a pattern -/

theorem untilDone_snd (seen : List Pattern) (ways : List (Option Pattern)) :
    (untilDone seen ways).2 = true ↔ none ∈ ways := by
  induction ways generalizing seen with
  | nil => simp [untilDone]
  | cons o ways ih => cases o <;> simp [untilDone, ih]

theorem mem_of_mem_untilDone {seen : List Pattern} {ways : List (Option Pattern)} {p : Pattern}
    (h : p ∈ (untilDone seen ways).1) : p ∈ seen ∨ some p ∈ ways := by
  induction ways generalizing seen with
  | nil => exact .inl (by simpa [untilDone] using h)
  | cons o ways ih =>
    cases o with
    | none => exact .inl (by simpa [untilDone] using h)
    | some q =>
      rw [untilDone] at h
      rcases ih h with h | h
      · split at h
        · exact .inl h
        · rcases List.mem_cons.mp h with rfl | h
          · exact .inr List.mem_cons_self
          · exact .inl h
      · exact .inr (List.mem_cons_of_mem _ h)

/-- Without a way that is done, no rest is lost. -/
theorem mem_untilDone {seen : List Pattern} {ways : List (Option Pattern)} {p : Pattern}
    (hnone : none ∉ ways) (h : p ∈ seen ∨ some p ∈ ways) : p ∈ (untilDone seen ways).1 := by
  induction ways generalizing seen with
  | nil => simpa [untilDone] using h
  | cons o ways ih =>
    obtain ⟨ho, hways⟩ := not_or.mp (mt List.mem_cons.mpr hnone)
    cases o with
    | none => exact absurd rfl ho
    | some q =>
      rw [untilDone]
      refine ih hways ?_
      rcases h with h | h
      · left
        split
        · exact h
        · exact List.mem_cons_of_mem _ h
      · rcases List.mem_cons.mp h with h | h
        · obtain rfl := Option.some.inj h
          left
          split
          next hseen => exact List.contains_iff_mem.mp hseen
          next => exact List.mem_cons_self
        · exact .inr h

/-- One of several patterns matches the start of a text. -/
def AnyMatches (ways : List Pattern) (before : Option Char) (w rest : List Char) : Prop :=
  ∃ p ∈ ways, Matches p before w rest

section Following

variable {ways : List Pattern} {before : Option Char} {taken n : Nat} {best : Option Nat}

theorem none_mem_flatMap_step {rest : List Char} :
    none ∈ ways.flatMap (step before rest.head?) ↔ AnyMatches ways before [] rest := by
  simp only [List.mem_flatMap, none_mem_step, AnyMatches]

theorem anyMatches_cons_iff {c : Char} {w rest : List Char} :
    AnyMatches ways before (c :: w) rest ↔
      ∃ p', some p' ∈ ways.flatMap (step before (some c)) ∧ Matches p' (some c) w rest := by
  simp only [AnyMatches, matches_cons_iff, List.mem_flatMap]
  grind

theorem follow_cons (c : Char) (cs : List Char) :
    follow ways before taken best (c :: cs) =
      let r := untilDone [] (ways.flatMap (step before (some c)))
      let best := if r.2 then some taken else best
      if r.1.isEmpty then best else follow r.1 (some c) (taken + 1) best cs := rfl

/-- What is found is what was best before, or a match of one of the ways. -/
theorem anyMatches_of_follow {cs : List Char} (h : follow ways before taken best cs = some n) :
    best = some n ∨ ∃ w rest, cs = w ++ rest ∧ n = taken + w.length ∧
      AnyMatches ways before w rest := by
  induction cs generalizing ways before taken best with
  | nil =>
    rw [follow] at h
    split at h
    next hdone =>
      obtain rfl := Option.some.inj h
      exact .inr ⟨[], [], rfl, rfl, none_mem_flatMap_step.mp ((untilDone_snd _ _).mp hdone)⟩
    next => exact .inl h
  | cons c cs ih =>
    have hbest : (if (untilDone [] (ways.flatMap (step before (some c)))).2 then some taken else best)
          = some n →
        best = some n ∨ ∃ w rest, c :: cs = w ++ rest ∧ n = taken + w.length ∧
          AnyMatches ways before w rest := by
      intro h
      split at h
      next hdone =>
        obtain rfl := Option.some.inj h
        have hmem := (untilDone_snd _ _).mp hdone
        exact .inr ⟨[], c :: cs, rfl, rfl, none_mem_flatMap_step.mp hmem⟩
      next => exact .inl h
    rw [follow_cons] at h
    simp only at h
    split at h
    next => exact hbest h
    next =>
      rcases ih h with h | ⟨w, rest, rfl, rfl, p, hp, hw⟩
      · exact hbest h
      · have hp' := (mem_of_mem_untilDone hp).resolve_left List.not_mem_nil
        exact .inr ⟨c :: w, rest, rfl, by rw [List.length_cons]; omega,
          anyMatches_cons_iff.mpr ⟨p, hp', hw⟩⟩

/-- If one of the ways matches, something is found. -/
theorem isSome_follow {cs : List Char}
    (h : best.isSome = true ∨ ∃ w rest, cs = w ++ rest ∧ AnyMatches ways before w rest) :
    (follow ways before taken best cs).isSome = true := by
  induction cs generalizing ways before taken best with
  | nil =>
    rw [follow]
    split
    next => rfl
    next hdone =>
      rcases h with h | ⟨w, rest, hw, hany⟩
      · exact h
      · obtain ⟨rfl, rfl⟩ := List.append_eq_nil_iff.mp hw.symm
        exact absurd ((untilDone_snd _ _).mpr (none_mem_flatMap_step.mpr hany)) hdone
  | cons c cs ih =>
    rw [follow_cons]
    simp only
    by_cases hdone : (untilDone [] (ways.flatMap (step before (some c)))).2 = true
    · rw [if_pos hdone]
      split
      · rfl
      · exact ih (.inl rfl)
    · rw [if_neg hdone]
      rcases h with h | ⟨w, rest, hw, hany⟩
      · split
        · exact h
        · exact ih (.inl h)
      · -- the match has a first character, and its step is among the ways that go on
        have hnone := mt (untilDone_snd [] (ways.flatMap (step before (some c)))).mpr hdone
        rcases List.cons_eq_append_iff.mp hw with ⟨rfl, rfl⟩ | ⟨w, rfl, rfl⟩
        · exact absurd (none_mem_flatMap_step.mpr hany) hnone
        · obtain ⟨p, hp, hpw⟩ := anyMatches_cons_iff.mp hany
          have hmem : p ∈ (untilDone [] _).1 := mem_untilDone hnone (.inr hp)
          rw [if_neg (by rw [List.isEmpty_iff]; exact List.ne_nil_of_mem hmem)]
          exact ih (.inr ⟨w, rest, rfl, p, hmem, hpw⟩)

end Following

section Search

variable {p : Pattern} {before : Option Char}

theorem matches_of_matchLength {cs : List Char} {n : Nat} (h : p.matchLength before cs = some n) :
    Matches p before (cs.take n) (cs.drop n) := by
  rcases anyMatches_of_follow h with h | ⟨w, rest, rfl, hn, q, hq, hw⟩
  · exact absurd h (by simp)
  · obtain rfl := List.mem_singleton.mp hq
    obtain rfl : n = w.length := by omega
    simpa using hw

theorem isSome_matchLength {w rest : List Char} (h : Matches p before w rest) :
    (p.matchLength before (w ++ rest)).isSome = true :=
  isSome_follow (.inr ⟨w, rest, rfl, p, List.mem_singleton_self p, h⟩)

/-! ## Searching -/

/-- What is found in a text is a match, with at least one character. -/
theorem matches_of_find? {cs : List Char} {m : Match} (h : p.find? before cs = some m) :
    ∃ front, cs = front ++ (m.found ++ m.rest) ∧ m.found ≠ [] ∧
      Matches p (front.getLast?.or before) m.found m.rest := by
  induction cs generalizing before with
  | nil => exact absurd h (by simp [find?])
  | cons c cs ih =>
    rw [find?] at h
    split at h
    next n hn =>
      obtain rfl := Option.some.inj h
      exact ⟨[], by simp, List.cons_ne_nil _ _, matches_of_matchLength hn⟩
    next =>
      obtain ⟨front, rfl, hne, hm⟩ := ih h
      exact ⟨c :: front, rfl, hne, by rwa [getLast?_cons_or]⟩

/-- Every match starts with a certain character. -/
def StartsWith (p : Pattern) (c : Char) : Prop :=
  ∀ ⦃before w rest⦄, Matches p before w rest → w.head? = some c

/-- Every match has a character. -/
def Consumes (p : Pattern) : Prop := ∀ ⦃before rest⦄, ¬Matches p before [] rest

theorem Consumes.isSome_find? (hp : p.Consumes) {front w rest : List Char}
    (h : Matches p (front.getLast?.or before) w rest) :
    (p.find? before (front ++ (w ++ rest))).isSome = true := by
  induction front generalizing before with
  | nil =>
    obtain ⟨n, hn⟩ := Option.isSome_iff_exists.mp (isSome_matchLength h)
    cases w with
    | nil => exact (hp h).elim
    | cons c w =>
      rw [List.nil_append, List.cons_append, find?]
      cases n with
      | zero => exact (hp (matches_of_matchLength hn)).elim
      | succ n =>
        rw [List.cons_append] at hn
        change p.matchLength before _ = _ at hn
        rw [hn]
        rfl
  | cons c front ih =>
    rw [List.cons_append, find?]
    split
    · rfl
    · rw [getLast?_cons_or] at h
      exact ih h

/-- A pattern is found exactly where it matches a part of the text. -/
theorem Consumes.occurs_iff (hp : p.Consumes) {cs : List Char} :
    p.occurs cs = true ↔
      ∃ front w rest, cs = front ++ (w ++ rest) ∧ Matches p front.getLast? w rest := by
  constructor
  · intro h
    obtain ⟨m, hm⟩ := Option.isSome_iff_exists.mp h
    obtain ⟨front, hcs, -, hmatch⟩ := matches_of_find? hm
    exact ⟨front, m.found, m.rest, hcs, by simpa using hmatch⟩
  · rintro ⟨front, w, rest, rfl, hw⟩
    exact hp.isSome_find? (by simpa using hw)

/-- Characters in front of the first one that can start a match are passed over. -/
theorem StartsWith.find?_append {c : Char} (hp : p.StartsWith c) {front : List Char} (cs : List Char)
    (hc : c ∉ front) : p.find? before (front ++ cs) = p.find? (front.getLast?.or before) cs := by
  induction front generalizing before with
  | nil => rfl
  | cons d front ih =>
    obtain ⟨hd, hfront⟩ := not_or.mp (mt List.mem_cons.mpr hc)
    rw [List.cons_append, find?, getLast?_cons_or]
    split
    next n hn =>
      have hhead := hp (matches_of_matchLength hn)
      rw [List.take_succ_cons, List.head?_cons] at hhead
      exact absurd (Option.some.inj hhead).symm hd
    next => exact ih hfront

theorem StartsWith.find?_eq_none {c : Char} (hp : p.StartsWith c) {cs : List Char} (hc : c ∉ cs) :
    p.find? before cs = none := by
  rw [← List.append_nil cs, hp.find?_append [] hc]
  rfl

theorem StartsWith.matchesFrom_eq_nil {c : Char} (hp : p.StartsWith c) {cs : List Char} (hc : c ∉ cs)
    (limit : Nat) : p.matchesFrom limit before cs = [] := by
  cases limit with
  | zero => rfl
  | succ limit => rw [matchesFrom, hp.find?_eq_none hc]

/-- A match that is the only one at its place is found there. -/
theorem find?_eq_of_unique {w rest : List Char} (hne : w ≠ []) (hw : Matches p before w rest)
    (hunique : ∀ u v, u ++ v = w ++ rest → Matches p before u v → u = w) :
    p.find? before (w ++ rest) = some ⟨w, rest⟩ := by
  obtain ⟨n, hn⟩ := Option.isSome_iff_exists.mp (isSome_matchLength hw)
  have htake := hunique _ _ (List.take_append_drop n _) (matches_of_matchLength hn)
  have hdrop : (w ++ rest).drop n = rest := by
    have h := List.take_append_drop n (w ++ rest)
    rw [htake] at h
    exact List.append_cancel_left h
  cases w with
  | nil => exact absurd rfl hne
  | cons c w =>
    cases n with
    | zero => exact absurd htake (by simp)
    | succ n =>
      rw [List.cons_append] at hn htake hdrop ⊢
      rw [find?, hn]
      rw [List.take_succ_cons] at htake
      rw [List.drop_succ_cons] at hdrop
      simp only [htake, hdrop]

/-! ## Counting -/

theorem length_rest_lt {cs : List Char} {m : Match} (h : p.find? before cs = some m) :
    m.rest.length < cs.length := by
  obtain ⟨front, rfl, hne, -⟩ := matches_of_find? h
  have := List.length_pos_iff.mpr hne
  simp only [List.length_append]
  omega

/-- There are no more matches than characters, so a limit at or above their number changes nothing. -/
theorem matchesFrom_eq_take {cs : List Char} {n : Nat} (h : cs.length ≤ n) (k : Nat) :
    p.matchesFrom k before cs = (p.matchesFrom n before cs).take k := by
  induction n generalizing k before cs with
  | zero =>
    obtain rfl := List.length_eq_zero_iff.mp (Nat.le_zero.mp h)
    cases k <;> simp [matchesFrom, find?]
  | succ n ih =>
    cases k with
    | zero => simp [matchesFrom]
    | succ k =>
      rw [matchesFrom, matchesFrom]
      cases hm : p.find? before cs with
      | none => rfl
      | some m =>
        have := length_rest_lt hm
        simp only [List.take_succ_cons]
        rw [ih (by omega)]

/-- A count up to a cap is the number of all matches, capped. -/
theorem count_eq (p : Pattern) (cap : Nat) (cs : List Char) :
    p.count cap cs = min cap (p.allMatches cs).length := by
  rw [count, allMatches, matchesFrom_eq_take (Nat.le_refl cs.length) cap, List.length_take]

end Search

/-! ## Parts of patterns -/

section Parts

variable {before : Option Char} {w rest : List Char}

/-- One set behind the other: each character is in its set. -/
theorem matches_all_set_iff {α : Type} (f : α → CharSet) (xs : List α) :
    Matches (all (xs.map fun x => set (f x))) before w rest ↔
      List.Forall₂ (fun x c => (f x).contains c = true) xs w := by
  induction xs generalizing before w with
  | nil => rw [List.map_nil, all, matches_empty_iff, List.forall₂_nil_left_iff]
  | cons x xs ih =>
    cases xs with
    | nil =>
      rw [List.map_cons, List.map_nil, all, matches_set_iff, List.forall₂_cons_left_iff]
      simp only [List.forall₂_nil_left_iff]
      grind
    | cons y ys =>
      have hall : all ((x :: y :: ys).map fun x => set (f x)) =
          seq (set (f x)) (all ((y :: ys).map fun x => set (f x))) := rfl
      rw [hall, matches_seq_iff, List.forall₂_cons_left_iff]
      simp only [ih, matches_set_iff]
      constructor
      · rintro ⟨_, v, rfl, ⟨c, hc, rfl⟩, hv⟩
        exact ⟨c, v, hc, hv, rfl⟩
      · rintro ⟨c, v, hc, hv, rfl⟩
        exact ⟨[c], v, rfl, ⟨c, hc, rfl⟩, hv⟩

@[simp] theorem matches_text_iff {s : String} : Matches (text s) before w rest ↔ w = s.toList := by
  rw [text, matches_all_set_iff]
  simp only [CharSet.contains, beq_iff_eq]
  rw [List.forall₂_eq_eq_eq, eq_comm]

@[simp] theorem matches_textAnyCase_iff {s : String} : Matches (textAnyCase s) before w rest ↔
    List.Forall₂ (fun c d => (CharSet.anyCase c).contains d = true) s.toList w := by
  rw [textAnyCase, matches_all_set_iff]

@[simp] theorem matches_star_set_iff {s : CharSet} :
    Matches (star (set s)) before w rest ↔ ∀ c ∈ w, s.contains c = true := by
  induction w generalizing before with
  | nil => exact ⟨fun _ _ h => absurd h List.not_mem_nil, fun _ => .stop⟩
  | cons c w ih =>
    rw [matches_cons_iff, List.forall_mem_cons]
    by_cases hc : s.contains c = true
    · simp [step, hc, followedBy, ih]
    · simp [step, hc]

end Parts

/-! ## Patterns without anchors -/

/-- The pattern is held fast nowhere. -/
def isFree : Pattern → Bool
  | empty | set _ => true
  | anchor _ => false
  | seq p q | alt p q => p.isFree && q.isFree
  | star p => p.isFree

/-- A pattern matches a text that stands alone. -/
def Takes (p : Pattern) (w : List Char) : Prop := Matches p none w []

@[simp] theorem takes_empty_iff {w : List Char} : empty.Takes w ↔ w = [] := matches_empty_iff

section Free

variable {p : Pattern}

/-- Without anchors it does not matter what stands around a match. -/
theorem Matches.of_isFree {before : Option Char} {w rest : List Char} (h : Matches p before w rest)
    (hp : p.isFree = true) (before' : Option Char) (rest' : List Char) : Matches p before' w rest' := by
  induction h generalizing before' rest' with
  | empty => exact .empty
  | set hc => exact .set hc
  | anchor => exact absurd hp (by simp [isFree])
  | seq _ _ ihu ihv =>
    obtain ⟨hp, hq⟩ := Bool.and_eq_true_iff.mp hp
    exact .seq (ihu hp _ _) (ihv hq _ _)
  | left _ ih => exact .left (ih (Bool.and_eq_true_iff.mp hp).1 _ _)
  | right _ ih => exact .right (ih (Bool.and_eq_true_iff.mp hp).2 _ _)
  | stop => exact .stop
  | more hne _ _ ihu ihv => exact .more hne (ihu hp _ _) (ihv hp _ _)

theorem takes_iff_matches (hp : p.isFree = true) {before : Option Char} {w rest : List Char} :
    p.Takes w ↔ Matches p before w rest :=
  ⟨fun h => h.of_isFree hp _ _, fun h => h.of_isFree hp _ _⟩

theorem isFree_followedBy {q : Pattern} (hp : p.isFree = true) (hq : q.isFree = true) :
    (followedBy p q).isFree = true := by
  unfold followedBy
  split
  · exact hq
  · exact Bool.and_eq_true_iff.mpr ⟨hp, hq⟩

/-- What is left of a pattern without anchors has none. -/
theorem isFree_of_mem_step {before after : Option Char} {p' : Pattern} (hp : p.isFree = true)
    (h : some p' ∈ step before after p) : p'.isFree = true := by
  induction p generalizing p' with
  | empty => simp [step] at h
  | set s =>
    rw [step] at h
    split at h
    · obtain rfl : p' = empty := by simpa using h
      rfl
    · exact absurd h List.not_mem_nil
  | anchor => exact absurd hp (by simp [isFree])
  | seq p q ihp ihq =>
    obtain ⟨hp, hq⟩ := Bool.and_eq_true_iff.mp hp
    obtain ⟨o, ho, h⟩ := List.mem_flatMap.mp h
    cases o with
    | none => exact ihq hq h
    | some p₁ =>
      obtain rfl : p' = followedBy p₁ q := by simpa using h
      exact isFree_followedBy (ihp hp ho) hq
  | alt p q ihp ihq =>
    obtain ⟨hp, hq⟩ := Bool.and_eq_true_iff.mp hp
    rcases List.mem_append.mp h with h | h
    · exact ihp hp h
    · exact ihq hq h
  | star p ih =>
    rw [step, List.mem_append, List.mem_filterMap] at h
    rcases h with ⟨o, ho, h⟩ | h
    · cases o with
      | none => simp at h
      | some p₁ =>
        obtain rfl : followedBy p₁ (star p) = p' := by simpa using h
        exact isFree_followedBy (ih hp ho) hp
    · simp at h

end Free

end Pattern

end BaselineAudit
