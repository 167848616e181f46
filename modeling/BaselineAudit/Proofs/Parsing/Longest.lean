import BaselineAudit.Proofs.Parsing.Derivation
import BaselineAudit.Proofs.Pattern.Matching

/-!
# The longest token

Tokens are followed through a text side by side, and what is found is the last of them that was done.
Where none of higher precedence comes in between, this is the longest one.

* `Lexicon.takes_cons_iff`, `Lexicon.isDone_iff`: what is left of a pattern takes the rest of what the
  pattern takes.
* `Lexicon.step_spec`: what a character does to the followed tokens, if it is no blank in front of them.
* `Language.Underway.follow_longest`: following tokens up to the end of the longest one.
* `Language.lexToken_longest`: so the longest token at a place is found there.
-/

namespace BaselineAudit.Parsing

open Pattern

namespace Lexicon

variable {l : Lexicon} {p : Pattern} {c : Char}

theorem mem_derivatives {p' : Pattern} : p' ∈ derivatives c p ↔ some p' ∈ p.step none (some c) := by
  simp [derivatives]

theorem isFree_of_mem_derivatives (hp : p.isFree = true) {p' : Pattern} (h : p' ∈ derivatives c p) :
    p'.isFree = true :=
  isFree_of_mem_step hp (mem_derivatives.mp h)

/-- A pattern is done where it takes nothing. -/
theorem isDone_iff : isDone p = true ↔ p.Takes [] := by
  rw [isDone, List.contains_iff_mem]
  change none ∈ p.step none ([] : List Char).head? ↔ _
  exact none_mem_step

theorem takes_cons_iff (hp : p.isFree = true) {w : List Char} :
    p.Takes (c :: w) ↔ ∃ p' ∈ derivatives c p, p'.Takes w := by
  rw [Takes, matches_cons_iff]
  simp only [mem_derivatives]
  refine exists_congr fun p' => and_congr_right fun h => ?_
  exact (takes_iff_matches (isFree_of_mem_step hp h)).symm

/-! ## Completions -/

/-- A token is among those that are done if one of its threads has nothing left to take. -/
theorem mem_completions_iff {threads : List Thread} {d : Nat × Int} :
    d ∈ l.completions threads ↔
      ∃ t ∈ threads, t.rest.Takes [] ∧ d = (t.token, (l.token t.token).precedence) := by
  simp only [completions, List.mem_filterMap, ← isDone_iff]
  refine exists_congr fun t => and_congr_right fun _ => ?_
  split
  next h => simp [h, eq_comm]
  next h => simp [h]

theorem winner_eq_none_iff {done : List (Nat × Int)} : l.winner done = none ↔ done = [] := by
  constructor
  · intro h
    cases done with
    | nil => rfl
    | cons d done =>
      rw [winner, List.foldl_cons] at h
      -- there is a best one from the first one on
      refine absurd h (Option.isSome_iff_ne_none.mp ?_)
      refine List.foldlRecOn (motive := fun (best : Option (Nat × Int)) => best.isSome = true) done _ rfl
        fun best hbest e _ => ?_
      split
      · split
        · exact hbest
        · rfl
      · rfl
  · rintro rfl
    rfl

/-! ## Steps -/

/-- The greatest of several numbers is above each of them. -/
theorem le_foldl_max {α : Type} (f : α → Int) (items : List α) (n : Int) :
    n ≤ items.foldl (fun m a => max m (f a)) n ∧
      ∀ a ∈ items, f a ≤ items.foldl (fun m a => max m (f a)) n := by
  induction items generalizing n with
  | nil => simp
  | cons b items ih =>
    obtain ⟨hn, hitems⟩ := ih (max n (f b))
    rw [List.foldl_cons]
    refine ⟨by omega, List.forall_mem_cons.mpr ⟨by omega, hitems⟩⟩

section

variable {threads : List Thread}

/-- The ways in which threads take a character that is no blank in front of them. -/
theorem mem_threadStep {t : Thread} (hb : (t.atBlanks && l.blanks.contains c) = false)
    {way : Bool × Int × Thread} :
    way ∈ l.threadStep c t ↔
      ∃ p' ∈ derivatives c t.rest, way = (false, (l.token t.token).precedence, ⟨t.token, p', false⟩) := by
  simp only [threadStep, hb, Bool.false_eq_true, if_false, List.nil_append, List.mem_map, eq_comm]

/-- What a character does that is no blank in front of a token: threads go on with what is left of
their patterns, and the transition has the precedence of the highest of them. -/
theorem step_spec (hb : ∀ t ∈ threads, (t.atBlanks && l.blanks.contains c) = false) {r : Transition}
    (h : l.step c threads = some r) :
    r.isBlank = false ∧
      (∀ u, u ∈ r.threads ↔
        ∃ t ∈ threads, ∃ p' ∈ derivatives c t.rest, u = ⟨t.token, p', false⟩) ∧
      ∀ t ∈ threads, derivatives c t.rest ≠ [] → (l.token t.token).precedence ≤ r.precedence := by
  have hways : ∀ way, way ∈ threads.flatMap (l.threadStep c) ↔ ∃ t ∈ threads,
      ∃ p' ∈ derivatives c t.rest,
        way = (false, (l.token t.token).precedence, ⟨t.token, p', false⟩) := by
    intro way
    rw [List.mem_flatMap]
    exact exists_congr fun t => and_congr_right fun ht => mem_threadStep (hb t ht)
  unfold step at h
  split at h
  · exact absurd h (by simp)
  next first rest heq =>
    rw [heq] at hways
    obtain rfl := Option.some.inj h
    refine ⟨?_, fun u => ?_, fun t ht hne => ?_⟩
    · obtain ⟨t, -, p', -, rfl⟩ := (hways first).mp List.mem_cons_self
      rfl
    · rw [mem_distinct, List.mem_map]
      constructor
      · rintro ⟨way, hway, rfl⟩
        obtain ⟨t, ht, p', hp', rfl⟩ := (hways way).mp hway
        exact ⟨t, ht, p', hp', rfl⟩
      · rintro ⟨t, ht, p', hp', rfl⟩
        exact ⟨_, (hways _).mpr ⟨t, ht, p', hp', rfl⟩, rfl⟩
    · obtain ⟨p', hp'⟩ := List.exists_mem_of_ne_nil _ hne
      have hmax := le_foldl_max (fun way : Bool × Int × Thread => way.2.1) rest first.2.1
      rcases List.mem_cons.mp ((hways _).mpr ⟨t, ht, p', hp', rfl⟩) with hway | hway
      · subst hway
        exact hmax.1
      · exact hmax.2 _ hway

/-- A thread that can take a character keeps the others from stopping. -/
theorem isSome_step (hb : ∀ t ∈ threads, (t.atBlanks && l.blanks.contains c) = false) {t : Thread}
    (ht : t ∈ threads) (hne : derivatives c t.rest ≠ []) : ∃ r, l.step c threads = some r := by
  obtain ⟨p', hp'⟩ := List.exists_mem_of_ne_nil _ hne
  have hway := List.mem_flatMap.mpr ⟨t, ht, (mem_threadStep (hb t ht)).mpr ⟨p', hp', rfl⟩⟩
  unfold step
  split
  next heq => exact absurd hway (by rw [heq]; exact List.not_mem_nil)
  next => exact ⟨_, rfl⟩

end

end Lexicon

/-! ## Names of tokens -/

/-- A token is shown under its own name. -/
theorem Grammar.labelOf_tokenSymbol (g : Grammar) {k : Nat} {t : Token}
    (h : g.productions.tokens[k]? = some t) :
    Tree.labelOf g.productions (.symbol (g.productions.tokenSymbol k)) = t.label := by
  have htokens : g.tokens[k]? = some t := by
    rw [← h, show g.productions.tokens = g.tokens.toArray from rfl, List.getElem?_toArray]
  have hlt : k < g.tokens.length := (List.getElem?_eq_some_iff.mp htokens).1
  have hlabels : g.productions.labels = (g.externals.map External.label ++ [none] ++
      g.tokens.map Token.label ++ (g.rules.map Rule.label ++ g.numbered.2.map fun _ => none)).toArray := by
    rw [← List.append_assoc]
    rfl
  have hsymbol : g.productions.tokenSymbol k = (g.externals.map External.label ++ [none]).length + k := by
    simp [Productions.tokenSymbol, Grammar.productions]
  rw [Tree.labelOf, hlabels, hsymbol, Array.getD_eq_getD_getElem?, List.getElem?_toArray,
    List.getElem?_append_left (by simp; omega), List.getElem?_append_right (by omega),
    Nat.add_sub_cancel_left, List.getElem?_map, htokens]
  rfl

namespace LexMode

/-- The mode looks for a token of a grammar, by its name. -/
def looksFor (g : Productions) (mode : LexMode) (id : String) : Bool :=
  (NatSet.below g.tokens.size mode.tokens).any fun i => g.tokens[i]?.any (·.id == id)

theorem looksFor_iff {g : Productions} {mode : LexMode} {id : String} :
    mode.looksFor g id = true ↔ ∃ i t, i ∈ NatSet.below g.tokens.size mode.tokens ∧
      g.tokens[i]? = some t ∧ t.id = id := by
  simp only [looksFor, List.any_eq_true, Option.any_eq_true, beq_iff_eq]
  grind

end LexMode

/-! ## Finding the longest token -/

namespace Language

section Follow

variable {l : Lexicon} {g : Productions} (start : Place) (best : Option (Nat × Place))
  (passed : Extent)

theorem foundHere_eq_best {threads : List Thread} (hnone : ∀ t ∈ threads, ¬t.rest.Takes [])
    (here : Place) : foundHere l g threads here best = best := by
  have hdone : l.completions threads = [] := by
    refine List.eq_nil_iff_forall_not_mem.mpr fun d hd => ?_
    obtain ⟨t, hmem, htakes, -⟩ := Lexicon.mem_completions_iff.mp hd
    exact hnone t hmem htakes
  rw [foundHere, hdone]
  rfl

/-- Where a thread has nothing left to take, one of those is found. -/
theorem foundHere_eq_some {threads : List Thread} (hdone : ∃ t ∈ threads, t.rest.Takes [])
    (here : Place) :
    ∃ t ∈ threads, t.rest.Takes [] ∧
      foundHere l g threads here best = some (g.tokenSymbol t.token, here) := by
  obtain ⟨t, hmem, htakes⟩ := hdone
  have hd := (Lexicon.mem_completions_iff (l := l)).mpr ⟨t, hmem, htakes, rfl⟩
  cases hw : l.winner (l.completions threads) with
  | none => exact absurd (Lexicon.winner_eq_none_iff.mp hw) (List.ne_nil_of_mem hd)
  | some d =>
    obtain ⟨u, hu, hutakes, rfl⟩ := Lexicon.mem_completions_iff.mp (Lexicon.winner_mem hw)
    exact ⟨u, hu, hutakes, by rw [foundHere, hw]⟩

/-- The first character of a token, in front of which nothing is found. -/
theorem follow_first {threads : List Thread} {c : Char} {atEnd : Bool}
    (hb : ∀ t ∈ threads, (t.atBlanks && l.blanks.contains c) = false)
    (hdone : l.winner (l.completions threads) = none) {r : Transition} (hr : l.step c threads = some r)
    (cs : List Char) :
    follow l g threads atEnd start none passed (c :: cs) =
      follow l g r.threads false start none (passed + .ofChar c) cs := by
  have hgoes : goesFurther l threads r = true := by rw [goesFurther, hdone]
  have hhere : ∀ here, foundHere l g threads here none = none := fun here => by rw [foundHere, hdone]
  rw [follow_cons, hr, hhere]
  simp only [hgoes, (Lexicon.step_spec hb hr).1, if_true, Bool.false_eq_true, if_false, Bool.and_false]

/-- Threads of patterns without anchors, none of which is in front of its token any more. -/
def Underway (threads : List Thread) : Prop :=
  ∀ t ∈ threads, t.rest.isFree = true ∧ t.atBlanks = false

section

variable {threads : List Thread} (ht : Underway threads)
include ht

theorem Underway.notBlank (c : Char) :
    ∀ t ∈ threads, (t.atBlanks && l.blanks.contains c) = false := by
  intro t hmem
  rw [(ht t hmem).2, Bool.false_and]

theorem Underway.skipping_eq : Lexicon.skipping threads = false := by
  rw [Lexicon.skipping, List.any_eq_false]
  intro t hmem
  simp [(ht t hmem).2]

theorem Underway.step {c : Char} {r : Transition} (h : l.step c threads = some r) :
    Underway r.threads := by
  obtain ⟨-, hthreads, -⟩ := Lexicon.step_spec (ht.notBlank c) h
  intro u hu
  obtain ⟨t, hmem, p', hp', rfl⟩ := (hthreads u).mp hu
  exact ⟨Lexicon.isFree_of_mem_derivatives (ht t hmem).1 hp', rfl⟩

/-- What a thread takes behind a step is the rest of what one took in front of it. -/
theorem Underway.takes_of_step {c : Char} {r : Transition} (h : l.step c threads = some r) {u : Thread}
    (hu : u ∈ r.threads) {w : List Char} (hw : u.rest.Takes w) :
    ∃ t ∈ threads, t.token = u.token ∧ t.rest.Takes (c :: w) := by
  obtain ⟨-, hthreads, -⟩ := Lexicon.step_spec (ht.notBlank c) h
  obtain ⟨t, hmem, p', hp', rfl⟩ := (hthreads u).mp hu
  exact ⟨t, hmem, rfl, (Lexicon.takes_cons_iff (ht t hmem).1).mpr ⟨p', hp', hw⟩⟩

/-- Where no thread takes any part of what follows, nothing new is found. -/
theorem Underway.follow_eq_best {cs : List Char}
    (hnone : ∀ t ∈ threads, ∀ u v, cs = u ++ v → ¬t.rest.Takes u) :
    let r := follow l g threads false start best passed cs
    r.found = best ∧ r.start = start := by
  induction cs generalizing threads passed with
  | nil =>
    rw [follow_nil, foundHere_eq_best best fun t hmem => hnone t hmem [] [] rfl]
    exact ⟨rfl, rfl⟩
  | cons c cs ih =>
    rw [follow_cons, foundHere_eq_best best fun t hmem => hnone t hmem [] _ rfl]
    split
    · exact ⟨rfl, rfl⟩
    next r hr =>
      split
      · rw [(Lexicon.step_spec (ht.notBlank c) hr).1]
        refine ih _ (ht.step hr) fun u hu w v hcs htakes => ?_
        obtain ⟨t, hmem, -, htakes⟩ := ht.takes_of_step hr hu htakes
        exact hnone t hmem (c :: w) v (by rw [hcs, List.cons_append]) htakes
      · exact ⟨rfl, rfl⟩

/-- The longest token that threads take is found, if no other one among them has a higher precedence
than token `i`, which is one of that length. -/
theorem Underway.follow_longest {i : Nat} {w : List Char} (rest : List Char)
    (hi : ∃ t ∈ threads, t.token = i ∧ t.rest.Takes w)
    (hlong : ∀ t ∈ threads, ∀ u v, w ++ rest = u ++ v → t.rest.Takes u → u.length ≤ w.length)
    (hprec : ∀ t ∈ threads, (l.token t.token).precedence ≤ (l.token i).precedence) :
    let r := follow l g threads false start best passed (w ++ rest)
    ∃ t ∈ threads, t.rest.Takes w ∧
      r.found = some (g.tokenSymbol t.token, ⟨passed + .ofChars w, rest⟩) ∧ r.start = start := by
  induction w generalizing threads passed best with
  | nil =>
    obtain ⟨t, hmem, -, htakes⟩ := hi
    obtain ⟨u, hu, hutakes, hfound⟩ :=
      foundHere_eq_some (l := l) (g := g) best ⟨t, hmem, htakes⟩ ⟨passed, rest⟩
    refine ⟨u, hu, hutakes, ?_⟩
    rw [List.nil_append, Extent.ofChars_nil, Extent.add_zero, ← hfound]
    cases rest with
    | nil => exact ⟨rfl, rfl⟩
    | cons c cs =>
      rw [follow_cons]
      split
      · exact ⟨rfl, rfl⟩
      next r hr =>
        split
        · -- whatever goes on comes to no end, since it would be a longer token
          rw [(Lexicon.step_spec (ht.notBlank c) hr).1]
          refine (ht.step hr).follow_eq_best _ _ _ fun v hv x y hcs hx => ?_
          obtain ⟨t, hmem, -, hx⟩ := ht.takes_of_step hr hv hx
          exact absurd (hlong t hmem (c :: x) y (by rw [hcs]; rfl) hx) (by simp)
        · exact ⟨rfl, rfl⟩
  | cons c w ih =>
    obtain ⟨t, hmem, rfl, htakes⟩ := hi
    obtain ⟨p', hp', htakes'⟩ := (Lexicon.takes_cons_iff (ht t hmem).1).mp htakes
    obtain ⟨r, hr⟩ := Lexicon.isSome_step (ht.notBlank c) hmem (List.ne_nil_of_mem hp')
    obtain ⟨hblank, hthreads, hhigh⟩ := Lexicon.step_spec (ht.notBlank c) hr
    have hgoes : goesFurther l threads r = true := by
      unfold goesFurther
      split
      next d hd =>
        obtain ⟨u, hu, -, rfl⟩ := Lexicon.mem_completions_iff.mp (Lexicon.winner_mem hd)
        have hle := Int.le_trans (hprec u hu) (hhigh t hmem (List.ne_nil_of_mem hp'))
        simp [Lexicon.goesOn, hblank, ht.skipping_eq, Int.not_lt.mpr hle]
      next => rfl
    have hnext := ih (foundHere l g threads ⟨passed, c :: (w ++ rest)⟩ best) (passed + .ofChar c)
      (ht.step hr) ⟨_, (hthreads _).mpr ⟨t, hmem, p', hp', rfl⟩, rfl, htakes'⟩ ?_ ?_
    · obtain ⟨u, hu, hutakes, hfound, hstart⟩ := hnext
      obtain ⟨v, hv, htoken, hvtakes⟩ := ht.takes_of_step hr hu hutakes
      refine ⟨v, hv, hvtakes, ?_⟩
      rw [List.cons_append, follow_cons, hr]
      simp only [hgoes, hblank, if_true, Bool.false_eq_true, if_false, Bool.false_and]
      rw [hfound, hstart, htoken, Extent.ofChars_cons, Extent.add_assoc]
      exact ⟨rfl, rfl⟩
    · intro u hu x y hxy hx
      obtain ⟨v, hv, -, hvtakes⟩ := ht.takes_of_step hr hu hx
      have := hlong v hv (c :: x) y (by rw [List.cons_append, List.cons_append, hxy]) hvtakes
      simpa using this
    · intro u hu
      obtain ⟨v, hv, q', -, rfl⟩ := (hthreads u).mp hu
      exact hprec v hv

end

end Follow

section

variable {σ : Type} {lang : Language σ}

theorem token_eq {l : Lexicon} {k : Nat} {u : Token} (h : l.tokens[k]? = some u) : l.token k = u := by
  rw [Lexicon.token, Array.getD_eq_getD_getElem?, h]
  rfl

section

variable {l : Lexicon} {tokens : NatSet} {c : Char} (hc : l.blanks.contains c = false)
include hc

theorem notBlank_of_start (tokens : NatSet) : ∀ u ∈ (NatSet.below l.tokens.size tokens).map l.start,
    (u.atBlanks && l.blanks.contains c) = false := by
  intro u _
  rw [hc, Bool.and_false]

/-- The threads behind the first character are tokens of the grammar that have taken it. -/
theorem exists_token_of_step {r : Transition}
    (hr : l.step c ((NatSet.below l.tokens.size tokens).map l.start) = some r) :
    ∀ u ∈ r.threads, ∃ v, l.tokens[u.token]? = some v ∧ u.rest ∈ Lexicon.derivatives c v.pattern ∧
      u.atBlanks = false := by
  intro u hu
  obtain ⟨s, hs, p', hp', rfl⟩ := ((Lexicon.step_spec (notBlank_of_start hc tokens) hr).2.1 u).mp hu
  obtain ⟨k, hk, rfl⟩ := List.mem_map.mp hs
  have hget := Array.getElem?_eq_getElem (List.mem_range.mp (List.mem_of_mem_filter hk))
  rw [Lexicon.start, token_eq hget] at hp'
  exact ⟨_, hget, hp', rfl⟩

end

theorem skipMark_eq {p : Place} (h : p.head? ≠ some '\ufeff') : skipMark p = p := by
  rw [skipMark, if_neg fun hmark => h hmark.2]

/-- The longest token at a place is found there: token `i` of the mode takes `c :: w`, no token takes
more of the text, and none that starts with the same character has a higher precedence. -/
theorem lexToken_longest (hlang : lang.TakesText)
    (hfree : ∀ t ∈ lang.table.grammar.tokens, t.pattern.isFree = true) {mode : LexMode} {p : Place}
    {c : Char} {w rest : List Char} (hp : p.rest = c :: w ++ rest) (hmark : c ≠ '\ufeff')
    (hc : lang.table.grammar.blanks.contains c = false) {i : Nat} {t : Token}
    (hi : i ∈ NatSet.below lang.table.grammar.tokens.size mode.tokens)
    (ht : lang.table.grammar.tokens[i]? = some t) (htakes : t.pattern.Takes (c :: w))
    (hlong : ∀ u ∈ lang.table.grammar.tokens, ∀ x y, c :: w ++ rest = x ++ y → u.pattern.Takes x →
      x.length ≤ (c :: w).length)
    (hprec : ∀ u ∈ lang.table.grammar.tokens, Lexicon.derivatives c u.pattern ≠ [] →
      u.precedence ≤ t.precedence) :
    ∃ k u, lang.table.grammar.tokens[k]? = some u ∧ u.pattern.Takes (c :: w) ∧
      (lang.lexToken mode p).found =
        some (lang.table.grammar.tokenSymbol k, ⟨p.passed + .ofChars (c :: w), rest⟩) ∧
      (lang.lexToken mode p).start = p := by
  let g := lang.table.grammar
  let l : Lexicon := ⟨g.blanks, g.tokens⟩
  let threads := (NatSet.below g.tokens.size mode.tokens).map l.start
  have hb := notBlank_of_start (l := l) hc mode.tokens
  -- the first character is taken, by token `i` at least
  obtain ⟨p', hp', htakes'⟩ :=
    (Lexicon.takes_cons_iff (hfree t (Array.mem_of_getElem? ht))).mp htakes
  have hstart : (l.start i).rest = t.pattern := by
    rw [Lexicon.start, token_eq (l := l) ht]
  obtain ⟨r, hr⟩ := Lexicon.isSome_step hb (List.mem_map_of_mem hi)
    (by rw [hstart]; exact List.ne_nil_of_mem hp')
  have hfollow : lang.lexToken mode p =
      follow l g r.threads false p none (p.passed + .ofChar c) (w ++ rest) := by
    have hskip : skipMark p = p := skipMark_eq (by rw [Place.head?, hp]; simpa using hmark)
    show follow l g threads mode.atEnd (skipMark p) none (skipMark p).passed (skipMark p).rest = _
    rw [hskip, hp, List.cons_append, follow_first _ _ hb (winner_starts hlang mode) hr]
  -- and the others behind it are followed up to the end
  have hunder := exists_token_of_step (l := l) hc hr
  have hready : Underway r.threads := by
    intro u hu
    obtain ⟨v, hv, hrest, hblanks⟩ := hunder u hu
    exact ⟨Lexicon.isFree_of_mem_derivatives (hfree v (Array.mem_of_getElem? hv)) hrest, hblanks⟩
  have hlonger : ∀ u ∈ r.threads, ∀ x y, w ++ rest = x ++ y → u.rest.Takes x → x.length ≤ w.length := by
    intro u hu x y hxy hx
    obtain ⟨v, hv, hrest, -⟩ := hunder u hu
    have hmem := Array.mem_of_getElem? hv
    have hle := hlong v hmem (c :: x) y (by rw [List.cons_append, List.cons_append, hxy])
      ((Lexicon.takes_cons_iff (hfree v hmem)).mpr ⟨u.rest, hrest, hx⟩)
    simpa using hle
  have hhigh : ∀ u ∈ r.threads, (l.token u.token).precedence ≤ (l.token i).precedence := by
    intro u hu
    obtain ⟨v, hv, hrest, -⟩ := hunder u hu
    rw [token_eq (l := l) hv, token_eq (l := l) ht]
    exact hprec v (Array.mem_of_getElem? hv) (List.ne_nil_of_mem hrest)
  have hmem := ((Lexicon.step_spec hb hr).2.1 _).mpr ⟨_, List.mem_map_of_mem hi, p', hstart ▸ hp', rfl⟩
  obtain ⟨u, hu, hutakes, hfound, hplace⟩ := hready.follow_longest (g := g) p none
    (p.passed + .ofChar c) rest ⟨_, hmem, rfl, htakes'⟩ hlonger hhigh
  obtain ⟨v, hv, hrest, -⟩ := hunder u hu
  refine ⟨u.token, v, hv, ?_, ?_, ?_⟩
  · exact (Lexicon.takes_cons_iff (hfree v (Array.mem_of_getElem? hv))).mpr ⟨u.rest, hrest, hutakes⟩
  · rw [hfollow, hfound, Extent.ofChars_cons, Extent.add_assoc]
  · rw [hfollow, hplace]

end

end Language

end BaselineAudit.Parsing
