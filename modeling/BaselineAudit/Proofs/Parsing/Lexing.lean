import BaselineAudit.Parsing.Parser
import BaselineAudit.Proofs.Parsing.Cover

/-!
# Texts of tokens

What the parser reads as the next token stands at the place at which it was looked for.

* `Language.ScansForward`: the scanner of a language only finds places behind the one it is given.
* `Language.lex_fits`: then every token fits the place at which it was read, also where text was skipped
  to find it.
* `Language.lex_solid`: if no pattern is done before it has taken a character, and the scanner takes
  some text for every token (`Language.TakesText`), then every token but the end of the text has some.
-/

namespace BaselineAudit.Parsing

namespace Language

variable {σ : Type}

/-- The scanner finds tokens at or behind the place that it is given. -/
def ScansForward (lang : Language σ) : Prop :=
  ∀ {memory wanted p r}, lang.scan memory wanted p = some r → p.Reaches r.start ∧ p.Reaches r.stop

theorem reaches_skipMark (p : Place) : p.Reaches (skipMark p) := by
  unfold skipMark
  split
  · exact p.reaches_next
  · exact .refl p

/-! ## Tokens with a pattern -/

section Follow

variable {l : Lexicon} {g : Productions} (p : Place)

/-- What is found if the search stops here. -/
def foundHere (l : Lexicon) (g : Productions) (threads : List Thread) (here : Place)
    (best : Option (Nat × Place)) : Option (Nat × Place) :=
  match l.winner (l.completions threads) with
  | some d => some (g.tokenSymbol d.1, here)
  | none => best

/-- Another character may be taken where something is found. -/
def goesFurther (l : Lexicon) (threads : List Thread) (t : Transition) : Bool :=
  match l.winner (l.completions threads) with
  | some d => Lexicon.goesOn t d (Lexicon.skipping threads)
  | none => true

section Steps

variable (threads : List Thread) (atEnd : Bool) (start : Place) (best : Option (Nat × Place))
  (passed : Extent)

theorem follow_nil :
    follow l g threads atEnd start best passed [] =
      ⟨if atEnd then some (g.endSymbol, ⟨passed, []⟩) else foundHere l g threads ⟨passed, []⟩ best,
        start, ⟨passed, []⟩⟩ := rfl

theorem follow_cons (c : Char) (cs : List Char) :
    follow l g threads atEnd start best passed (c :: cs) =
      match l.step c threads with
      | none => ⟨foundHere l g threads ⟨passed, c :: cs⟩ best, start, ⟨passed, c :: cs⟩⟩
      | some t =>
        if goesFurther l threads t then
          follow l g t.threads (atEnd && t.isBlank)
            (if t.isBlank then ⟨passed + .ofChar c, cs⟩ else start)
            (foundHere l g threads ⟨passed, c :: cs⟩ best) (passed + .ofChar c) cs
        else ⟨foundHere l g threads ⟨passed, c :: cs⟩ best, start, ⟨passed, c :: cs⟩⟩ := rfl

end Steps

/-- What is found while tokens are followed has a property `F`, if every token that is done has it
and so has the end of the text. `I` is what is known of the threads at a place; it is kept from one
character to the next. -/
theorem follow_found {I : List Thread → Place → Prop} {F : Nat → Place → Prop}
    (step : ∀ {threads passed c cs t}, I threads ⟨passed, c :: cs⟩ → l.step c threads = some t →
      I t.threads ⟨passed + .ofChar c, cs⟩)
    (done : ∀ {threads here d}, I threads here → l.winner (l.completions threads) = some d →
      F (g.tokenSymbol d.1) here)
    (ends : ∀ {threads here}, I threads here → F g.endSymbol here)
    {threads : List Thread} {atEnd : Bool} {start : Place} {best : Option (Nat × Place)}
    {passed : Extent} {cs : List Char} (h : I threads ⟨passed, cs⟩)
    (hb : ∀ n q, best = some (n, q) → F n q) :
    ∀ n q, (follow l g threads atEnd start best passed cs).found = some (n, q) → F n q := by
  have here : ∀ {threads here best}, I threads here → (∀ n q, best = some (n, q) → F n q) →
      ∀ n q, foundHere l g threads here best = some (n, q) → F n q := by
    intro threads here best h hb n q hfound
    unfold foundHere at hfound
    split at hfound
    next d hd =>
      obtain ⟨rfl, rfl⟩ := Prod.mk.inj (Option.some.inj hfound)
      exact done h hd
    next => exact hb n q hfound
  induction cs generalizing threads atEnd start best passed with
  | nil =>
    intro n q hfound
    rw [follow_nil] at hfound
    simp only at hfound
    split at hfound
    · obtain ⟨rfl, rfl⟩ := Prod.mk.inj (Option.some.inj hfound)
      exact ends h
    · exact here h hb n q hfound
  | cons c cs ih =>
    rw [follow_cons]
    split
    · exact here h hb
    next t ht =>
      split
      · exact ih (step h ht) (here h hb)
      · exact here h hb

/-- All places that come up while tokens are followed are behind the one at which they start. -/
theorem follow_reaches {threads : List Thread} {atEnd : Bool} {start : Place}
    {best : Option (Nat × Place)} {passed : Extent} {cs : List Char} (hs : p.Reaches start)
    (hh : p.Reaches ⟨passed, cs⟩) :
    let r := follow l g threads atEnd start best passed cs
    p.Reaches r.start ∧ p.Reaches r.stop := by
  induction cs generalizing threads atEnd start best passed with
  | nil => exact ⟨hs, hh⟩
  | cons c cs ih =>
    have hnext := hh.trans (Place.reaches_cons passed c cs)
    rw [follow_cons]
    split
    · exact ⟨hs, hh⟩
    · split
      · refine ih ?_ hnext
        split
        · exact hnext
        · exact hs
      · exact ⟨hs, hh⟩

/-- A token that was found takes some text, unless it is the end. What is done before any character
was taken is left out by `hw`. -/
theorem follow_lt {threads : List Thread} {atEnd : Bool} {start : Place} {passed : Extent}
    {cs : List Char} (hle : p.bytes ≤ passed.bytes)
    (hw : l.winner (l.completions threads) = none) :
    ∀ n q, (follow l g threads atEnd start none passed cs).found = some (n, q) →
      n = g.endSymbol ∨ p.bytes < q.bytes := by
  refine follow_found (F := fun n q => n = g.endSymbol ∨ p.bytes < q.bytes)
    (I := fun threads here => p.bytes ≤ here.bytes ∧
      (p.bytes < here.bytes ∨ l.winner (l.completions threads) = none)) ?_ ?_ ?_
    ⟨hle, .inr hw⟩ (by simp)
  · intro threads passed c cs t ⟨hle, _⟩ _
    have hlt : p.bytes < (passed + Extent.ofChar c).bytes := by
      have hc : 0 < (Extent.ofChar c).bytes := c.utf8Size_pos
      have hle : p.bytes ≤ passed.bytes := hle
      rw [Extent.bytes_add]
      omega
    exact ⟨Nat.le_of_lt hlt, .inl hlt⟩
  · intro threads here d ⟨_, hlt⟩ hd
    exact .inr (hlt.resolve_right (by simp [hd]))
  · exact fun _ => .inl rfl

end Follow

theorem lexToken_reaches (lang : Language σ) (mode : LexMode) (p : Place) :
    let r := lang.lexToken mode p
    p.Reaches r.start ∧ p.Reaches r.stop ∧ ∀ n q, r.found = some (n, q) → p.Reaches q := by
  have hp := reaches_skipMark p
  obtain ⟨hstart, hstop⟩ := follow_reaches p hp hp
  refine ⟨hstart, hstop, ?_⟩
  exact follow_found (I := fun _ here => p.Reaches here) (F := fun _ q => p.Reaches q)
    (fun h _ => h.trans (Place.reaches_cons ..)) (fun h _ => h) (fun h => h) hp (by simp)

/-! ## Leaves -/

/-- A leaf between two places fits the place at which it was looked for. -/
theorem leafBetween_fits (lang : Language σ) (kind : Kind) {origin start stop : Place} (state : Nat)
    (hs : origin.Reaches start) (ht : origin.Reaches stop) :
    (lang.leafBetween kind origin start stop state).Fits origin := by
  obtain ⟨v, hv⟩ := ht
  -- the leaf starts at `start`, or at `stop` if that is in front of it
  obtain ⟨start', u, hu, hle, heq⟩ : ∃ start' u, origin.Behind u start' ∧
      start'.bytes ≤ stop.bytes ∧ (if stop.bytes < start.bytes then stop else start) = start' := by
    split
    · exact ⟨stop, v, hv, Nat.le_refl _, rfl⟩
    · obtain ⟨u, hu⟩ := hs
      exact ⟨start, u, hu, by omega, rfl⟩
  obtain ⟨x, rfl, hx⟩ := hu.split hv hle
  refine ⟨u ++ x, stop, ?_, hv⟩
  unfold leafBetween
  simp only [heq]
  rw [hx.2, hu.2, Extent.add_sub_cancel_left, Extent.add_sub_cancel_left]
  exact Tree.covers_leaf ..

theorem leafBetween_total (lang : Language σ) (kind : Kind) {origin start stop : Place} (state : Nat)
    (hs : origin.Reaches start) (ht : origin.Reaches stop) :
    origin.bytes + (lang.leafBetween kind origin start stop state).total.bytes = stop.bytes := by
  have h₁ := hs.bytes_le
  have h₂ := ht.bytes_le
  unfold leafBetween Tree.leaf Tree.total
  simp only [Extent.bytes_add, Extent.sub_def]
  split <;> simp only [Place.bytes] at * <;> omega

/-- A token as it is read: a tree without parts. Only the end of the text may stand anywhere. -/
structure IsLeaf (g : Productions) (t : Tree σ) : Prop where
  children : t.children = []
  aliases : t.aliases = []
  label : t.label = Tree.labelOf g t.kind
  kind : t.kind ≠ .skipped
  extra : t.extra = true ↔ t.kind = .symbol g.endSymbol

theorem leafBetween_isLeaf (lang : Language σ) {kind : Kind} (hk : kind ≠ .skipped)
    (origin start stop : Place) (state : Nat) :
    IsLeaf lang.table.grammar (lang.leafBetween kind origin start stop state) :=
  ⟨rfl, rfl, rfl, hk, beq_iff_eq⟩

section

variable [DecidableEq σ] {lang : Language σ}

/-- A token that the scanner found lies between the places that it gives. -/
theorem lexExternal_eq {advanced errorMode : Bool} {memory : σ} {origin p : Place}
    {state mode : Nat} {t : Tree σ}
    (h : lang.lexExternal advanced errorMode memory origin p state mode = some t) :
    ∃ r, lang.scan memory (lang.table.state mode).externals p = some r ∧
      ∃ changed, t = { lang.leafBetween (.symbol (lang.table.grammar.externalSymbols.getD r.external 0))
          origin r.start r.stop state with
        memory := some r.memory, lastMemory := some r.memory, changesMemory := changed } := by
  unfold lexExternal at h
  simp only at h
  split at h
  · exact absurd h (by simp)
  · split at h
    · exact absurd h (by simp)
    · rename_i r hr
      split at h
      · exact absurd h (by simp)
      · exact ⟨r, hr, _, (Option.some.inj h).symm⟩

omit [DecidableEq σ] in
/-- A token that was found counts unless text was skipped. -/
theorem of_skipped {P : Tree σ → Prop} {origin : Place} {state : Nat}
    {skipped : Option (Place × Place)} {t : Tree σ}
    (herr : ∀ {a b}, origin.Reaches a → origin.Reaches b →
      P (lang.leafBetween .error origin a b state)) (ht : P t) :
    (∀ a b, skipped = some (a, b) → origin.Reaches a ∧ origin.Reaches b) →
      P (match skipped with
        | none => t
        | some (a, b) => lang.leafBetween .error origin a b state) := by
  intro hs
  cases skipped with
  | none => exact ht
  | some e => exact herr (hs e.1 e.2 rfl).1 (hs e.1 e.2 rfl).2

/-- What holds of the tokens that the scanner finds, of those with a pattern and of skipped text holds
of the next token. -/
theorem lexFrom_induction {P : Tree σ → Prop} {advanced : Bool} {memory : σ}
    {origin : Place} {state : Nat}
    (hext : ∀ {errorMode p mode t}, origin.Reaches p →
      lang.lexExternal advanced errorMode memory origin p state mode = some t → P t)
    (htok : ∀ {p mode n q}, origin.Reaches p → (lang.lexToken mode p).found = some (n, q) →
      P (lang.leafBetween (.symbol n) origin (lang.lexToken mode p).start q state))
    (herr : ∀ {a b}, origin.Reaches a → origin.Reaches b →
      P (lang.leafBetween .error origin a b state))
    {fuel : Nat} {errorMode : Bool} {skipped : Option (Place × Place)} {p : Place}
    (hp : origin.Reaches p)
    (hs : ∀ a b, skipped = some (a, b) → origin.Reaches a ∧ origin.Reaches b) :
    P (lang.lexFrom advanced memory origin state fuel errorMode skipped p) := by
  -- the ends of the skipped text, if there is one
  have ends : ∀ {skipped : Option (Place × Place)} {q : Place}, origin.Reaches q →
      (∀ a b, skipped = some (a, b) → origin.Reaches a ∧ origin.Reaches b) →
      origin.Reaches (skipped.getD (q, q)).1 ∧ origin.Reaches (skipped.getD (q, q)).2 := by
    intro skipped q hq hs
    cases skipped with
    | none => exact ⟨hq, hq⟩
    | some e => exact hs e.1 e.2 rfl
  induction fuel generalizing errorMode skipped p with
  | zero => exact herr (ends hp hs).1 (ends hp hs).2
  | succ fuel ih =>
    rw [lexFrom]
    simp only
    generalize (if errorMode then 0 else state) = mode
    split
    · rename_i t ht
      exact of_skipped herr (hext hp ht) hs
    · obtain ⟨hstart, hstop, -⟩ := lang.lexToken_reaches
        (lang.table.modes.getD (lang.table.state mode).mode default) p
      split
      · rename_i n q hf
        exact of_skipped herr (htok hp hf) hs
      · generalize lang.lexToken (lang.table.modes.getD (lang.table.state mode).mode default) p = r
          at hstart hstop ⊢
        replace hstart := hp.trans hstart
        replace hstop := hp.trans hstop
        have hnext := hstop.trans r.stop.reaches_next
        split
        · exact ih (.refl origin) hs
        · split
          · split
            · exact herr (ends hstart hs).1 (ends hstart hs).2
            · refine ih hnext fun a b hab => ?_
              obtain ⟨rfl, rfl⟩ := Prod.mk.inj (Option.some.inj hab)
              exact ⟨(ends hstart hs).1, hnext⟩
          · refine ih hstop fun a b hab => ?_
            obtain ⟨rfl, rfl⟩ := Prod.mk.inj (Option.some.inj hab)
            exact ⟨(ends hstart hs).1, hstop⟩

/-- The next token fits the place at which it is looked for. -/
theorem lex_fits (hl : lang.ScansForward) (s : Stack σ) (h : Head σ) (state : Nat) :
    (lang.lex s h state).Fits (s.top h).place ∧
      IsLeaf lang.table.grammar (lang.lex s h state) := by
  refine lexFrom_induction (P := fun t => t.Fits (s.top h).place ∧ IsLeaf lang.table.grammar t)
    ?_ ?_ ?_ (.refl _) (fun a b hab => absurd hab (by simp))
  · intro errorMode p mode t hp ht
    obtain ⟨r, hr, changed, rfl⟩ := lexExternal_eq ht
    obtain ⟨w, q, hw, hq⟩ := leafBetween_fits lang
      (.symbol (lang.table.grammar.externalSymbols.getD r.external 0)) state (hp.trans (hl hr).1)
      (hp.trans (hl hr).2)
    exact ⟨⟨w, q, hw.congr rfl rfl rfl, hq⟩, rfl, rfl, rfl, by simp [leafBetween, Tree.leaf],
      beq_iff_eq⟩
  · intro p mode n q hp hf
    obtain ⟨hstart, -, hfound⟩ := lang.lexToken_reaches mode p
    exact ⟨leafBetween_fits lang _ state (hp.trans hstart) (hp.trans (hfound n q hf)),
      leafBetween_isLeaf lang (by simp) ..⟩
  · intro a b ha hb
    exact ⟨leafBetween_fits lang .error state ha hb, leafBetween_isLeaf lang (by simp) ..⟩

/-! ## Tokens that take text -/

/-- Every token and every rule of the language but that of whole texts takes some text. -/
structure TakesText (lang : Language σ) : Prop where
  /-- No pattern is done before it has taken a character. -/
  tokens : ∀ t ∈ lang.table.grammar.tokens, Lexicon.isDone t.pattern = false
  scan : ∀ {memory wanted p r}, lang.scan memory wanted p = some r → p.bytes < r.stop.bytes
  rules : ∀ rule f, lang.table.grammar.families[rule]? = some f → [] ∈ f.alternatives → rule = 0

/-- The tree is no token but the end of the text, or takes some text. -/
def Solid (lang : Language σ) (t : Tree σ) : Prop :=
  ∀ n, t.kind = .symbol n → n ≠ lang.table.grammar.endSymbol → 0 < t.total.bytes

omit [DecidableEq σ] in
theorem winner_starts (ht : lang.TakesText) (mode : LexMode) :
    let l : Lexicon := ⟨lang.table.grammar.blanks, lang.table.grammar.tokens⟩
    l.winner (l.completions
      ((NatSet.below lang.table.grammar.tokens.size mode.tokens).map l.start)) = none := by
  intro l
  have h : l.completions ((NatSet.below lang.table.grammar.tokens.size mode.tokens).map l.start)
      = [] := by
    refine List.filterMap_eq_nil_iff.mpr fun t h => ?_
    obtain ⟨i, hi, rfl⟩ := List.mem_map.mp h
    have hlt : i < lang.table.grammar.tokens.size :=
      List.mem_range.mp (List.mem_of_mem_filter hi)
    have hd := ht.tokens _ (Array.getElem_mem hlt)
    have hi : (l.start i).rest = lang.table.grammar.tokens[i].pattern := by
      simp [Lexicon.start, Lexicon.token, l, hlt]
    rw [hi, hd]
    rfl
  rw [h]
  rfl

theorem lex_solid (hl : lang.ScansForward) (ht : lang.TakesText) (s : Stack σ) (h : Head σ)
    (state : Nat) : lang.Solid (lang.lex s h state) := by
  refine lexFrom_induction (P := lang.Solid) ?_ ?_ ?_ (.refl _)
    (fun a b hab => absurd hab (by simp))
  · intro errorMode p mode t hp h n _ _
    obtain ⟨r, hr, changed, rfl⟩ := lexExternal_eq h
    have := leafBetween_total lang (.symbol (lang.table.grammar.externalSymbols.getD r.external 0))
      state (hp.trans (hl hr).1) (hp.trans (hl hr).2)
    have := ht.scan hr
    have := hp.bytes_le
    show 0 < (lang.leafBetween (.symbol (lang.table.grammar.externalSymbols.getD r.external 0)) _
      r.start r.stop state).total.bytes
    omega
  · intro p mode n q hp hf n' hn hne
    obtain rfl : n = n' := Kind.symbol.inj hn
    obtain ⟨hstart, -, hfound⟩ := lang.lexToken_reaches mode p
    have hlt : p.bytes < q.bytes := by
      have hm := reaches_skipMark p
      have h := follow_lt (skipMark p) (Nat.le_refl _) (winner_starts ht mode) n q hf
      exact Nat.lt_of_le_of_lt hm.bytes_le (h.resolve_left hne)
    have := leafBetween_total lang (.symbol n) state (hp.trans hstart) (hp.trans (hfound n q hf))
    have := hp.bytes_le
    omega
  · intro a b _ _ n hn
    exact absurd hn (by simp [leafBetween, Tree.leaf])

end

end Language

end BaselineAudit.Parsing
