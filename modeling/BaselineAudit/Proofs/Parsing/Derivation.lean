import BaselineAudit.Proofs.Parsing.Reading
import BaselineAudit.Proofs.Parsing.Shape
import Mathlib.Data.List.Forall2

/-!
# Trees are derived by the grammar

The trees on a way down the stack lead from items of the lower state to items of the upper one. A rule
is completed where such a way ends at an item with all steps read; the way starts at the same
alternative then, with nothing read, so its trees stand where the steps of the alternative expect them.

Text with errors in it is left open: what is in it need not follow any rule.

* `Productions.Path`: trees that lead from one item to another.
* `Language.chain_path`: the trees on a way down the stack.
* `Tree.Derived`: the parts of a rule are those of one of its alternatives, and are named as there.
* `Language.parse_derived`: what is parsed is derived by the grammar.
* `Tree.shown_of_spells`: so the parts of a rule are shown as its steps say.
-/

namespace BaselineAudit.Parsing

variable {σ : Type}

/-! ## Tokens are terminals -/

namespace Lexicon

variable {l : Lexicon}

theorem winner_mem {done : List (Nat × Int)} {d : Nat × Int} (h : l.winner done = some d) :
    d ∈ done := by
  -- the best one so far is one of them
  suffices hinv : ∀ d, l.winner done = some d → d ∈ done from hinv d h
  unfold winner
  refine List.foldlRecOn (motive := fun (best : Option (Nat × Int)) => ∀ d, best = some d → d ∈ done)
    _ _ (by simp) fun best hbest e he d hd => ?_
  split at hd
  · split at hd
    · exact hbest d hd
    · exact Option.some.inj hd ▸ he
  · exact Option.some.inj hd ▸ he

theorem token_of_mem_completions {threads : List Thread} {d : Nat × Int}
    (h : d ∈ l.completions threads) : ∃ t ∈ threads, t.token = d.1 := by
  obtain ⟨t, ht, hd⟩ := List.mem_filterMap.mp h
  split at hd
  · exact ⟨t, ht, congrArg Prod.fst (Option.some.inj hd)⟩
  · exact absurd hd (by simp)

/-- Threads go on as the token that they started as. -/
theorem token_of_step {c : Char} {threads : List Thread} {r : Transition}
    (h : l.step c threads = some r) : ∀ u ∈ r.threads, ∃ t ∈ threads, t.token = u.token := by
  unfold step at h
  split at h
  · exact absurd h (by simp)
  next first rest heq =>
    rw [← heq] at h
    intro u hu
    rw [← Option.some.inj h] at hu
    obtain ⟨way, hway, rfl⟩ := List.mem_map.mp (mem_distinct.mp hu)
    obtain ⟨t, ht, hway⟩ := List.mem_flatMap.mp hway
    refine ⟨t, ht, ?_⟩
    rcases List.mem_append.mp hway with hway | hway
    · split at hway
      · rw [List.mem_singleton.mp hway]
      · exact absurd hway List.not_mem_nil
    · obtain ⟨p, -, rfl⟩ := List.mem_map.mp hway
      rfl

end Lexicon

namespace Language

/-- The tokens that are followed are found, or the end of the text. -/
theorem follow_terminal {l : Lexicon} {g : Productions} {threads : List Thread} {atEnd : Bool}
    {start : Place} {passed : Extent} {cs : List Char}
    (ht : ∀ t ∈ threads, t.token < g.tokens.size) :
    ∀ n q, (follow l g threads atEnd start none passed cs).found = some (n, q) →
      n < g.terminalCount := by
  refine follow_found (F := fun n _ => n < g.terminalCount)
    (I := fun threads _ => ∀ t ∈ threads, t.token < g.tokens.size) ?_ ?_ ?_ ht (by simp)
  · intro threads passed c cs r ht hr u hu
    obtain ⟨t, hmem, htoken⟩ := Lexicon.token_of_step hr u hu
    exact htoken ▸ ht t hmem
  · intro threads here d ht hd
    obtain ⟨t, hmem, htoken⟩ := Lexicon.token_of_mem_completions (Lexicon.winner_mem hd)
    have := ht t hmem
    unfold Productions.tokenSymbol Productions.terminalCount
    omega
  · intro threads here _
    unfold Productions.endSymbol Productions.terminalCount
    omega

/-- What is read as the next token is a terminal, or no symbol at all. -/
theorem lex_terminal {lang : Language σ} [DecidableEq σ]
    (hext : ∀ n ∈ lang.table.grammar.externalSymbols, n < lang.table.grammar.terminalCount)
    (s : Stack σ) (h : Head σ) (state : Nat) :
    ∀ n, (lang.lex s h state).kind = .symbol n → n < lang.table.grammar.terminalCount := by
  refine lexFrom_induction (P := fun t => ∀ n, t.kind = .symbol n →
    n < lang.table.grammar.terminalCount) ?_ ?_ ?_ (.refl _) (fun a b hab => absurd hab (by simp))
  · intro errorMode p mode t _ ht n hn
    obtain ⟨r, -, changed, rfl⟩ := lexExternal_eq ht
    obtain rfl : lang.table.grammar.externalSymbols.getD r.external 0 = n := Kind.symbol.inj hn
    rw [Array.getD_eq_getD_getElem?]
    cases hr : lang.table.grammar.externalSymbols[r.external]? with
    | none =>
      show 0 < lang.table.grammar.terminalCount
      unfold Productions.terminalCount
      omega
    | some n => exact hext n (Array.mem_of_getElem? hr)
  · intro p mode n q _ hf n' hn
    obtain rfl : n = n' := Kind.symbol.inj hn
    refine follow_terminal (fun t ht => ?_) n q hf
    obtain ⟨i, hi, rfl⟩ := List.mem_map.mp ht
    exact List.mem_range.mp (List.mem_of_mem_filter hi)
  · intro a b _ _ n hn
    exact absurd hn (by simp [leafBetween, Tree.leaf])

end Language

/-! ## Paths -/

namespace Productions

/-- A tree stands where a step is expected. -/
def Spells (p : Productions) (s : Step) (t : Tree σ) : Prop :=
  ∃ n, t.kind = .symbol n ∧ p.Matches s n

/-- Trees lead from one item to another: each is read for the next step. -/
inductive Path (p : Productions) : Nat → List (Tree σ) → Nat → Prop
  | nil {x} : Path p x [] x
  | cons {x y s rest t ts} : (p.toItems.item x).rest = s :: rest → p.Spells s t →
      Path p (p.toItems.next.getD x 0) ts y → Path p x (t :: ts) y

variable {p : Productions} {x y : Nat} {ts : List (Tree σ)}

theorem Stands.lt_of_rest {r n : Nat} {steps : List Step} (h : p.Stands x r steps n) {s : Step}
    {rest : List Step} (hrest : (p.toItems.item x).rest = s :: rest) : n < steps.length := by
  rw [h.item, Item.rest_ofSteps] at hrest
  by_contra hge
  rw [List.drop_eq_nil_of_le (by omega)] at hrest
  exact absurd hrest (by simp)

/-- All items on a path are of one alternative, the steps of which the trees spell. -/
theorem Path.spells (h : p.Path x ts y) {r n : Nat} {steps : List Step} (hx : p.Stands x r steps n) :
    p.Stands y r steps (n + ts.length) ∧
      List.Forall₂ p.Spells ((steps.drop n).take ts.length) ts := by
  induction h generalizing n with
  | nil => exact ⟨hx, by simp⟩
  | @cons x y s rest t ts hrest hs _ ih =>
    have hlt := hx.lt_of_rest hrest
    rw [hx.item, Item.rest_ofSteps] at hrest
    obtain ⟨hy, hts⟩ := ih (hx.next hlt)
    refine ⟨?_, ?_⟩
    · rw [List.length_cons, Nat.add_comm ts.length, ← Nat.add_assoc]
      exact hy
    · rw [List.drop_eq_getElem_cons hlt] at hrest ⊢
      rw [List.length_cons, List.take_succ_cons, (List.cons.inj hrest).1]
      exact .cons hs hts

end Productions

namespace Table.Reading

variable {t : Table} {items : Nat → List Nat}

theorem stands_of_has (h : t.Reading items) {q x : Nat} (hx : t.grammar.Has (items q) x) :
    ∃ r steps d, t.grammar.Stands x r steps d := by
  rcases hx with hx | ⟨r, hx⟩
  · exact h.stands q x hx
  · obtain ⟨steps, hs⟩ := Productions.stands_of_mem_starts hx
    exact ⟨r, steps, 0, hs⟩

end Table.Reading

/-- An item of a state of which something was read is one that the state was made for. -/
theorem Productions.Has.mem_of_done {p : Productions} {own : List Nat} {x : Nat} (h : p.Has own x)
    (hd : (p.toItems.item x).done ≠ 0) : x ∈ own := by
  rcases h with h | ⟨r, h⟩
  · exact h
  · obtain ⟨steps, hs⟩ := stands_of_mem_starts h
    rw [hs.item] at hd
    exact absurd rfl hd

/-- What joins two states was read there: a tree that counts leads from the items of the lower state
to those of the upper one. -/
def ReadBetween (g : Productions) (items : Nat → List Nat) (p : Nat) : Option (Tree σ) → Nat → Prop
  | some t, q =>
    (t.extra = true → p = q) ∧
      (t.extra = false → q ≠ 0 → ∃ n, t.kind = .symbol n ∧ g.Reads (items p) n (items q))
  | none, q => q = 0

theorem Chain.mono {joins joins' : Nat → Option (Tree σ) → Nat → Prop} {top p d : Nat}
    {ts : List (Tree σ)} (h : Chain joins top p ts d) (hj : ∀ {p o q}, joins p o q → joins' p o q) :
    Chain joins' top p ts d := by
  induction h with
  | nil => exact .nil
  | tree _ hjoin ih => exact .tree ih (hj hjoin)
  | mark _ hjoin ih => exact .mark ih (hj hjoin)

namespace Language

/-- The trees on a way down the stack lead to each item of the upper state from one of the lower
state, as far as the item was read. -/
theorem chain_path {t : Table} {items : Nat → List Nat} (ht : t.Reading items) {p q d : Nat}
    {ts : List (Tree σ)} (hc : Chain (ReadBetween t.grammar items) q p ts d) {y : Nat}
    (hy : t.grammar.Has (items q) y) (hd : d ≤ (t.grammar.toItems.item y).done) :
    ∃ x, t.grammar.Has (items p) x ∧ t.grammar.Path x (ts.filter (!·.extra)) y ∧
      (t.grammar.toItems.item x).done + d = (t.grammar.toItems.item y).done := by
  induction hc with
  | nil => exact ⟨y, hy, .nil, rfl⟩
  | @tree p m u ts d _ hj ih =>
    obtain ⟨hextra, hread⟩ : ReadBetween t.grammar items p (some u) m := hj
    by_cases hu : u.extra = true
    · rw [if_pos hu] at hd ⊢
      rw [List.filter_cons_of_neg (by simp [hu]), hextra hu]
      exact ih hd
    · rw [if_neg hu] at hd ⊢
      obtain ⟨x, hx, hpath, hdone⟩ := ih (by omega)
      -- something of the item was read, so the state was made for it
      have hmem : x ∈ items m := hx.mem_of_done (by omega)
      have hm : m ≠ 0 := by
        rintro rfl
        rw [ht.error] at hmem
        exact absurd hmem List.not_mem_nil
      obtain ⟨n, hkind, hreads⟩ := hread (by simpa using hu) hm
      obtain ⟨x', s, rest, hx', hrest, hmatch, rfl⟩ := hreads x hmem
      rw [List.filter_cons_of_pos (by simp [hu])]
      refine ⟨x', hx', .cons hrest ⟨n, hkind, hmatch⟩ hpath, ?_⟩
      obtain ⟨r, steps, i, hs⟩ := ht.stands_of_has hx'
      rw [(hs.next (hs.lt_of_rest hrest)).item] at hdone
      rw [hs.item, ← hdone]
      simp only [Item.ofSteps]
      omega
  | @mark p m ts d _ hj ih =>
    obtain rfl : m = 0 := hj
    obtain ⟨x, hx, -, hdone⟩ := ih (by omega)
    have hmem := hx.mem_of_done (by omega)
    rw [ht.error] at hmem
    exact absurd hmem List.not_mem_nil

/-- The trees that a rule is made of spell one of its alternatives. -/
theorem chain_spells {t : Table} {items : Nat → List Nat} (ht : t.Reading items)
    {p q rule count : Nat} {ts : List (Tree σ)} {aliases : List (Option Label)}
    (hc : Chain (ReadBetween t.grammar items) q p ts count)
    (ha : t.grammar.Completes (items q) rule count aliases) :
    ∃ steps ∈ t.grammar.alternativesOf rule, aliases = trimAliases (steps.map (·.shownAs)) ∧
      List.Forall₂ t.grammar.Spells steps (ts.filter (!·.extra)) := by
  obtain ⟨y, hy, hrest, rfl, rfl, rfl⟩ := ha
  -- the item is read to its end, which is as far as the way goes down
  have hdone : (t.grammar.toItems.item y).done = (t.grammar.toItems.item y).total := by
    obtain ⟨r, steps, i, hs⟩ := ht.stands_of_has hy
    rw [hs.item, Item.rest_ofSteps, List.drop_eq_nil_iff] at hrest
    rw [hs.item]
    exact Nat.le_antisymm hs.le hrest
  obtain ⟨x, hx, hpath, hzero⟩ := chain_path ht hc hy (Nat.le_of_eq hdone.symm)
  obtain ⟨r, steps, i, hs⟩ := ht.stands_of_has hx
  obtain rfl : i = 0 := by
    rw [hs.item] at hzero
    simp only [Item.ofSteps] at hzero
    omega
  obtain ⟨hy', hts⟩ := hpath.spells hs
  rw [hy'.item, Item.rest_ofSteps, List.drop_eq_nil_iff] at hrest
  rw [List.drop_zero, List.take_of_length_le (by omega)] at hts
  refine ⟨steps, ?_, ?_, hts⟩
  · rw [hy'.item]
    exact hy'.mem
  · rw [hy'.item]
    simp only [Item.ofSteps]
    rw [List.take_of_length_le hrest]

end Language

/-! ## Derived trees -/

/-- A tree that is no rule names none of its parts. The parts of a rule that count are those of one of
its alternatives, and are named as there. A missing token stands for whatever it is put in for. -/
inductive Tree.Derived (g : Productions) : Tree σ → Prop
  | plain {t : Tree σ} : t.aliases = [] →
      (t.missing = true ∨ ∀ n, t.kind = .symbol n → n < g.terminalCount) →
      (∀ c ∈ t.children, Derived g c) → Derived g t
  | rule {t : Tree σ} {r : Nat} {steps : List Step} : t.kind = .symbol (g.ruleSymbol r) →
      steps ∈ g.alternativesOf r → t.aliases = trimAliases (steps.map (·.shownAs)) →
      List.Forall₂ g.Spells steps (t.children.filter (!·.extra)) →
      (∀ c ∈ t.children, Derived g c) → Derived g t

theorem Tree.Derived.children {g : Productions} {t c : Tree σ} (h : t.Derived g)
    (hc : c ∈ t.children) : c.Derived g := by
  cases h with
  | plain _ _ h => exact h c hc
  | rule _ _ _ _ h => exact h c hc

namespace Language

variable {lang : Language σ} {role : Nat → Role} {items : Nat → List Nat}

/-- A token leads to items of the next state. -/
theorem reads_terminal (hr : lang.table.Reading items) {p n : Nat} (hn : n ∈ lang.table.terminals)
    (hzero : lang.table.next p n ≠ 0) (hsame : lang.table.next p n ≠ p) :
    lang.table.grammar.Reads (items p) n (items (lang.table.next p n)) := by
  rcases action?_of_next hn hzero hsame with ha | ⟨rule, count, aliases, ha⟩
  · exact hr.action p n _ ha
  · exact (hr.action p n _ ha).2 _ rfl

/-- The tree of a rule is derived, and leads to items of the next state. -/
theorem reduce_derived (hr : lang.table.Reading items) {p q n rule count : Nat} {ts : List (Tree σ)}
    {aliases : List (Option Label)} {again : Option Nat}
    (hc : Chain (ReadBetween lang.table.grammar items) q p ts count)
    (hs : ∀ t ∈ ts, t.Derived lang.table.grammar)
    (ha : lang.table.action? q n = some (.reduce rule count aliases again)) :
    let t := Tree.node lang.table.grammar (.symbol (lang.table.grammar.ruleSymbol rule))
      (splitTrailing ts).1 aliases
    t.Derived lang.table.grammar ∧ ReadBetween lang.table.grammar items p (some t)
      (lang.table.next p (lang.table.grammar.ruleSymbol rule)) := by
  intro t
  obtain ⟨steps, hsteps, haliases, hspells⟩ := chain_spells hr hc (hr.action q n _ ha).1
  refine ⟨.rule (r := rule) (by simp [t]) hsteps (by simp [t, haliases]) ?_ fun c hmem => ?_, ?_, ?_⟩
  · simp only [t, Tree.node_children]
    rw [filter_splitTrailing]
    exact hspells
  · simp only [t, Tree.node_children] at hmem
    exact hs c (splitTrailing_append ts ▸ List.mem_append_left _ hmem)
  · simp [t]
  · intro _ hne
    refine ⟨lang.table.grammar.ruleSymbol rule, by simp [t], ?_⟩
    rw [next_ruleSymbol] at hne ⊢
    exact hr.goto p rule _ rfl hne

/-- The discipline of a table for the states of which items are known. -/
def derivation (ht : lang.table.Ordered role) (hr : lang.table.Reading items) (hl : lang.ScansForward)
    (hext : ∀ n ∈ lang.table.grammar.externalSymbols, n < lang.table.grammar.terminalCount) :
    Discipline lang where
  sound t := t.AllProper lang ∧ t.Derived lang.table.grammar
  joins p o q := Joined lang role p o q ∧ ReadBetween lang.table.grammar items p o q
  token t := (discipline ht hl).token t ∧
    ∀ n, t.kind = .symbol n → n < lang.table.grammar.terminalCount
  token_extra h := (discipline ht hl).token_extra h.1
  token_sound {t b} h hb := by
    refine ⟨(discipline ht hl).token_sound h.1 hb, .plain h.1.1.aliases (.inr h.2) fun c hc => ?_⟩
    rw [show t.children = [] from h.1.1.children] at hc
    exact absurd hc List.not_mem_nil
  children_sound h hc := ⟨h.1.children hc, h.2.children hc⟩
  sound_error h := h.1.proper.error
  error_sound {ts b} h := by
    refine ⟨(discipline ht hl).error_sound fun t ht => (h t ht).1, .plain (by simp) (.inr ?_) ?_⟩
    · simp
    · simpa using fun t ht => (h t ht).2
  skipped_sound {ts} h := by
    refine ⟨(discipline ht hl).skipped_sound fun t ht => (h t ht).1, .plain (by simp) (.inr ?_) ?_⟩
    · simp
    · simpa using fun t ht => (h t ht).2
  missing_sound := ⟨(discipline ht hl).missing_sound, .plain rfl (.inl rfl) (by simp [Tree.leaf])⟩
  shift_joins {t n p q} htok hk ha := by
    refine ⟨(discipline ht hl).shift_joins htok.1 hk ha, by simp, fun _ _ => ⟨n, hk, ?_⟩⟩
    exact hr.action p n _ ha
  extra_joins {t p} hs hx := by
    refine ⟨(discipline ht hl).extra_joins hs.1 hx, fun _ => rfl, fun h => ?_⟩
    exact absurd (hx.symm.trans h) (by simp)
  reduce hc hs ha := by
    obtain ⟨hproper, hleads⟩ := (discipline ht hl).reduce (hc.mono And.left) (fun t h => (hs t h).1) ha
    obtain ⟨hderived, hread⟩ := reduce_derived hr (hc.mono And.right) (fun t h => (hs t h).2) ha
    exact ⟨⟨hproper, hderived⟩, hleads, hread⟩
  missing_joins {n p state} hn hzero hsame := by
    obtain ⟨hend, -⟩ := next_terminal ht hn hzero hsame
    refine ⟨(discipline ht hl).missing_joins hn hzero hsame, by simp [Tree.leaf, hend],
      fun _ _ => ⟨n, rfl, reads_terminal hr hn hzero hsame⟩⟩
  mark_joins := ⟨rfl, rfl⟩
  skipped_joins := ⟨(discipline ht hl).skipped_joins, by simp, fun _ h => absurd rfl h⟩
  joins_error h := (discipline ht hl).joins_error h.1
  joins_extra h := (discipline ht hl).joins_extra h.1
  joins_mark h := h.1
  joins_accept h := (discipline ht hl).joins_accept h.1
  accept_end := (discipline ht hl).accept_end
  forward := hl
  lex_token := ⟨(discipline ht hl).lex_token, lex_terminal hext _ _ _⟩

/-- The parts of what is parsed are derived by the grammar. The whole is an error and names none of
them, or names them as an alternative of the first rule does. -/
theorem parse_derived {g : Grammar} (hg : g.productions.Tidy) (hlang : lang.table = .ofGrammar g)
    (hl : lang.ScansForward)
    (hext : ∀ n ∈ g.productions.externalSymbols, n < g.productions.terminalCount) [DecidableEq σ]
    {cs : List Char} {t : Tree σ} (h : lang.parse cs = some t) :
    (∀ c ∈ t.children, c.AllProper lang ∧ c.Derived g.productions) ∧
      (t.aliases = [] ∨ ∃ steps ∈ g.productions.alternativesOf 0,
        t.aliases = trimAliases (steps.map (·.shownAs))) := by
  obtain ⟨role, ht⟩ := Table.exists_ordered hg
  obtain ⟨items, hr⟩ := Table.exists_reading hg
  have hgrammar : lang.table.grammar = g.productions := by rw [hlang, Table.ofGrammar_grammar]
  rw [← hlang] at ht hr
  rw [← hgrammar] at hext ⊢
  obtain ⟨⟨-, hkind⟩, -, hchildren, ⟨u, ⟨-, hu⟩, hukind, hualiases⟩, -⟩ :=
    parse_whole (derivation ht hr hl hext) h
  refine ⟨hchildren, ?_⟩
  rw [← hualiases]
  cases hu with
  | plain haliases _ _ => exact .inl haliases
  | @rule _ r steps hrule hsteps haliases _ _ =>
    obtain rfl : r = 0 := by
      rw [hukind] at hrule
      rcases hkind with hkind | hkind
      · exact absurd (hkind.symm.trans hrule) (by simp)
      · have := Kind.symbol.inj (hkind.symm.trans hrule)
        unfold Productions.ruleSymbol at this
        omega
    exact .inr ⟨steps, hsteps, haliases⟩

end Language

/-! ## Shown parts -/

theorem mem_of_mem_trimAliases {names : List (Option Label)} {name : Option Label}
    (h : name ∈ trimAliases names) : name ∈ names :=
  List.mem_reverse.mp ((List.dropWhile_sublist _).subset (List.mem_reverse.mp h))

/-- The names of the parts of a rule, one by one. -/
theorem trimAliases_cons (name : Option Label) (names : List (Option Label)) :
    (trimAliases (name :: names)).head?.join = name ∧
      (trimAliases (name :: names)).tail = trimAliases names := by
  unfold trimAliases
  rw [List.reverse_cons, List.dropWhile_append]
  split
  next hnil =>
    rw [List.isEmpty_iff] at hnil
    rw [hnil]
    cases name <;> simp
  next => simp

namespace Tree

/-- `R` holds of each tree and the name under which it is shown, if the trees that count have these
names. -/
inductive Shown (R : Option Label → Tree σ → Prop) : List (Option Label) → List (Tree σ) → Prop
  | nil {names} : Shown R names []
  | extra {names t ts} : t.extra = true → R none t → Shown R names ts → Shown R names (t :: ts)
  | part {names t ts} : t.extra = false → R names.head?.join t → Shown R names.tail ts →
      Shown R names (t :: ts)

/-- The first of several trees is shown under its name, in front of the others. -/
theorem Shown.nodesOfAll_cons {R : Option Label → Tree σ → Prop} {names : List (Option Label)}
    {t : Tree σ} {ts : List (Tree σ)} (h : Shown R names (t :: ts)) (e : Extent) (after : List Node) :
    ∃ name names', nodesOfAll e names after (t :: ts) =
        nodesOf e name (nodesOfAll (e + t.total) names' after ts) t ∧
      R name t ∧ Shown R names' ts := by
  cases h with
  | extra hx ht hts => exact ⟨none, names, by rw [nodesOfAll, hx]; rfl, ht, hts⟩
  | part hx ht hts => exact ⟨names.head?.join, names.tail, by rw [nodesOfAll, hx]; rfl, ht, hts⟩

/-- Without names, all trees are shown as they are. -/
theorem shown_of_names {R : Option Label → Tree σ → Prop} {names : List (Option Label)}
    {ts : List (Tree σ)} (hnone : ∀ t ∈ ts, R none t) (h : ∀ l, some l ∈ names → ∀ t ∈ ts, R (some l) t) :
    Shown R names ts := by
  induction ts generalizing names with
  | nil => exact .nil
  | cons t ts ih =>
    have hrest : ∀ u ∈ ts, R none u := fun u hu => hnone u (List.mem_cons_of_mem t hu)
    by_cases hx : t.extra = true
    · exact .extra hx (hnone t List.mem_cons_self) (ih hrest fun l hl u hu =>
        h l hl u (List.mem_cons_of_mem t hu))
    · refine .part (by simpa using hx) ?_ (ih hrest fun l hl u hu =>
        h l (List.mem_of_mem_tail hl) u (List.mem_cons_of_mem t hu))
      cases hname : names.head?.join with
      | none => exact hnone t List.mem_cons_self
      | some l =>
        exact h l (List.mem_of_head? (Option.join_eq_some_iff.mp hname)) t List.mem_cons_self

/-- The parts of a rule are shown as its steps say. -/
theorem shown_of_spells {g : Productions} {R : Option Label → Tree σ → Prop} {steps : List Step}
    {ts : List (Tree σ)} (h : List.Forall₂ g.Spells steps (ts.filter (!·.extra)))
    (hnone : ∀ t ∈ ts, t.extra = true → R none t)
    (hR : ∀ s ∈ steps, ∀ t ∈ ts, g.Spells s t → R s.shownAs t) :
    Shown R (trimAliases (steps.map (·.shownAs))) ts := by
  induction ts generalizing steps with
  | nil => exact .nil
  | cons t ts ih =>
    have hrest : ∀ u ∈ ts, u.extra = true → R none u := fun u hu =>
      hnone u (List.mem_cons_of_mem t hu)
    by_cases hx : t.extra = true
    · rw [List.filter_cons_of_neg (by simp [hx])] at h
      exact .extra hx (hnone t List.mem_cons_self hx) (ih h hrest fun s hs u hu =>
        hR s hs u (List.mem_cons_of_mem t hu))
    · rw [List.filter_cons_of_pos (by simp [hx])] at h
      cases h with
      | @cons s _ steps _ hst hsteps =>
        obtain ⟨hhead, htail⟩ := trimAliases_cons s.shownAs (steps.map (·.shownAs))
        rw [List.map_cons]
        refine .part (by simpa using hx) ?_ ?_
        · rw [hhead]
          exact hR s List.mem_cons_self t List.mem_cons_self hst
        · rw [htail]
          exact ih hsteps hrest fun s' hs u hu =>
            hR s' (List.mem_cons_of_mem s hs) u (List.mem_cons_of_mem t hu)

mutual

/-- What stands behind a tree is shown behind it. -/
theorem after_subset_nodesOf : (t : Tree σ) → {e : Extent} → {shown : Option Label} →
    {after : List Node} → after ⊆ t.nodesOf e shown after
  | ⟨kind, label, padding, size, children, aliases, extra, missing, cost, sc, sd, m, lm, cm, fs⟩,
      e, shown, after => by
    rw [nodesOf]
    split
    · exact List.subset_cons_self _ after
    · exact after_subset_nodesOfAll children

/-- What stands behind several trees is shown behind them. -/
theorem after_subset_nodesOfAll : (ts : List (Tree σ)) → {e : Extent} →
    {names : List (Option Label)} → {after : List Node} → after ⊆ nodesOfAll e names after ts
  | [], e, names, after => by
    rw [nodesOfAll]
    exact List.Subset.refl after
  | t :: ts, e, names, after => by
    rw [nodesOfAll]
    exact List.Subset.trans (after_subset_nodesOfAll ts) (after_subset_nodesOf t)

end

theorem nodesOf_some (t : Tree σ) (e : Extent) (l : Label) (after : List Node) :
    ∃ n : Node, n ∈ t.nodesOf e (some l) after ∧ n.label = l := by
  cases t
  rw [nodesOf]
  exact ⟨_, List.mem_cons_self, rfl⟩

/-- The first name is shown if there is a tree that counts. -/
theorem exists_shown {names : List (Option Label)} {l : Label} (hl : names.head?.join = some l)
    {ts : List (Tree σ)} (hts : ts.filter (!·.extra) ≠ []) (e : Extent) (after : List Node) :
    ∃ n ∈ nodesOfAll e names after ts, n.label = l := by
  induction ts generalizing e with
  | nil => exact absurd rfl hts
  | cons t ts ih =>
    rw [nodesOfAll]
    by_cases hx : t.extra = true
    · rw [List.filter_cons_of_neg (by simp [hx])] at hts
      obtain ⟨n, hn, hlabel⟩ := ih hts (e + t.total)
      rw [hx]
      exact ⟨n, after_subset_nodesOf t hn, hlabel⟩
    · rw [show t.extra = false by simpa using hx]
      simp only [Bool.false_eq_true, if_false, hl]
      exact nodesOf_some t e l _

end Tree

end BaselineAudit.Parsing
