import BaselineAudit.Proofs.Parsing.Run
import BaselineAudit.Proofs.Parsing.Table
import Mathlib.Algebra.Order.BigOperators.Group.List
import Mathlib.Algebra.Order.Group.Nat

/-!
# The shape of trees

The roles of the states of a table are enough for the discipline of its parser. It also says when a
tree takes no text: where every token and every rule takes some (`Language.TakesText`), all trees that
a rule is made of do, unless there is an error in one of them.

* `Tree.Proper`: what holds of all trees that a parser builds.
* `Language.discipline`: the discipline of a table whose states have roles.
* `Language.parse_shape`: the tree of a text is made of proper trees and covers a first part of it.
-/

namespace BaselineAudit.Parsing

variable {σ : Type}

/-! ## Costs and sizes -/

namespace Tree

/-- A tree without errors that takes no text. -/
def Hollow (t : Tree σ) : Prop := t.cost = 0 ∧ t.total.bytes = 0

theorem addChildren_ownCost (g : Productions) (t : Tree σ) (place : Nat) (children : List (Tree σ)) :
    (t.addChildren g false place children).ownCost =
      t.ownCost + (children.map fun c => if c.kind = .skipped then 0 else c.cost).sum := by
  induction children generalizing t place with
  | nil => rfl
  | cons c rest ih =>
    rw [addChildren, ih]
    simp [addChild, Nat.add_assoc]

/-- The tree of a rule costs what its parts cost. -/
theorem cost_node_symbol (g : Productions) (n : Nat) (children : List (Tree σ))
    (aliases : List (Option Label)) : (node g (.symbol n) children aliases).cost =
      (children.map fun c => if c.kind = .skipped then 0 else c.cost).sum := by
  have hinError : (Kind.symbol n == .error || Kind.symbol n == .skipped) = false := rfl
  rw [cost, node_missing]
  unfold node
  simp only [hinError, Bool.false_eq_true, if_false, addChildren_ownCost, Nat.zero_add]

theorem cost_node_pos (g : Productions) {kind : Kind} (hk : kind = .error ∨ kind = .skipped)
    (children : List (Tree σ)) (aliases : List (Option Label)) :
    (node g kind children aliases).cost ≠ 0 := by
  have hinError : (kind == .error || kind == .skipped) = true := by
    rcases hk with rfl | rfl <;> rfl
  rw [cost, node_missing]
  unfold node
  simp only [hinError, if_true, Bool.false_eq_true, if_false]
  simp [costs]

theorem bytes_foldl_total (e : Extent) (ts : List (Tree σ)) :
    (ts.foldl (fun e t => e + t.total) e).bytes = e.bytes + (ts.map (·.total.bytes)).sum := by
  induction ts generalizing e with
  | nil => rfl
  | cons t ts ih =>
    rw [List.foldl_cons, ih]
    simp [Nat.add_assoc]

theorem bytes_sizeOf_cons (t : Tree σ) (ts : List (Tree σ)) :
    (sizeOf (t :: ts)).bytes = t.size.bytes + (ts.map (·.total.bytes)).sum :=
  bytes_foldl_total t.size ts

theorem bytes_total (t : Tree σ) : t.total.bytes = t.padding.bytes + t.size.bytes := rfl

theorem bytes_total_node (g : Productions) (kind : Kind) (children : List (Tree σ))
    (aliases : List (Option Label)) :
    (node g kind children aliases).total.bytes = (children.map (·.total.bytes)).sum := by
  rw [bytes_total, node_padding, node_size]
  cases children with
  | nil => rfl
  | cons t ts =>
    rw [bytes_sizeOf_cons, List.map_cons, List.sum_cons, bytes_total]
    simp [Nat.add_assoc]

theorem size_le_sizeOf {t : Tree σ} {ts : List (Tree σ)} (h : t ∈ ts) :
    t.size.bytes ≤ (sizeOf ts).bytes := by
  cases ts with
  | nil => exact absurd h (by simp)
  | cons u us =>
    rw [bytes_sizeOf_cons]
    rcases List.mem_cons.mp h with rfl | h
    · omega
    · have hle := List.single_le_sum (fun _ _ => Nat.zero_le _) _
        (List.mem_map_of_mem (f := (·.total.bytes)) h)
      have htotal := bytes_total t
      omega

end Tree

/-! ## Proper trees -/

variable (lang : Language σ) (role : Nat → Role)

/-- What holds of all trees that a parser builds. -/
structure Tree.Proper (t : Tree σ) : Prop where
  label : t.label = Tree.labelOf lang.table.grammar t.kind
  error : t.kind = .error → t.extra = true → t.Inner
  extra : t.extra = true → t.kind ≠ .skipped
  cost : t.cost = 0 → ∀ c ∈ t.children, c.kind ≠ .skipped ∧ c.cost = 0
  size : ∀ c ∈ t.children, c.size.bytes ≤ t.size.bytes
  /-- Each part that counts takes some text behind the first blanks, but for the first one. -/
  text : lang.TakesText → t.cost = 0 → t.aliases = [] ∨ ∃ rule count,
    lang.table.grammar.Offers rule count t.aliases ∧ count ≤ t.size.bytes + 1

/-- A tree all parts of which are proper. -/
inductive Tree.AllProper : Tree σ → Prop
  | mk {t : Tree σ} : t.Proper lang → (∀ c ∈ t.children, AllProper c) → AllProper t

/-- A tree leads from state `p` to state `q`. -/
structure Tree.Leads (p : Nat) (t : Tree σ) (q : Nat) : Prop where
  extra : t.extra = true → p = q
  error : t.kind = .error → t.extra = true
  skipped : t.kind = .skipped → q = 0
  plain : t.extra = false → q ≠ 0 → role p = .plain
  final : t.extra = false → role q = .final → t.Entire lang.table.grammar
  hollow : lang.TakesText → t.extra = false → t.Hollow → role q ≠ .plain

/-- What joins two states: a tree, or the mark of an error. -/
def Joined (p : Nat) : Option (Tree σ) → Nat → Prop
  | some t, q => t.Leads lang role p q
  | none, q => q = 0

variable {lang role}

theorem Tree.AllProper.proper {t : Tree σ} (h : t.AllProper lang) : t.Proper lang := by
  cases h with
  | mk h _ => exact h

theorem Tree.AllProper.children {t c : Tree σ} (h : t.AllProper lang) (hc : c ∈ t.children) :
    c.AllProper lang := by
  cases h with
  | mk _ h => exact h c hc

namespace Language

/-- A token is proper, whether it may stand anywhere or not. -/
theorem allProper_leaf {t : Tree σ} (hchildren : t.children = []) (haliases : t.aliases = [])
    (hlabel : t.label = Tree.labelOf lang.table.grammar t.kind) (hkind : t.kind ≠ .skipped)
    (herror : t.extra = true → t.kind ≠ .error) : t.AllProper lang := by
  refine ⟨⟨hlabel, fun h hx => absurd h (herror hx), fun _ => hkind, ?_, ?_, fun _ _ => .inl haliases⟩,
    ?_⟩
  all_goals simp [hchildren]

/-- Text with errors in it. -/
theorem allProper_wrong {kind : Kind} (hk : kind = .error ∨ kind = .skipped) {ts : List (Tree σ)}
    {b : Bool} (hb : b = true → kind = .error) (h : ∀ t ∈ ts, t.AllProper lang) :
    Tree.AllProper lang { Tree.node lang.table.grammar kind ts [] with extra := b } := by
  have hinner : Tree.Inner
      ({ Tree.node lang.table.grammar kind ts [] with extra := b } : Tree σ) := fun w hw =>
    Tree.inner_node _ _ _ _ w (hw.congr rfl rfl rfl)
  have hcost : ({ Tree.node lang.table.grammar kind ts [] with extra := b } : Tree σ).cost ≠ 0 :=
    Tree.cost_node_pos _ hk ts []
  refine ⟨⟨?_, fun _ _ => hinner, fun hx => ?_, fun h => absurd h hcost, ?_, fun _ h => absurd h hcost⟩,
    ?_⟩
  · simp
  · simp [hb hx]
  · simp only [Tree.node_children, Tree.node_size]
    exact fun c hc => Tree.size_le_sizeOf hc
  · simpa using h

/-! ## Rules -/

/-- No tree below a plain state is an error, unless it is an extra. -/
theorem chain_plain (ht : lang.table.Ordered role) {p q d : Nat} {ts : List (Tree σ)}
    (hc : Chain (Joined lang role) q p ts d) (hq : role q = .plain) :
    role p = .plain ∧ d = (ts.filter (!·.extra)).length ∧
      ∀ t ∈ ts, t.extra = false → t.kind ≠ .skipped ∧ (lang.TakesText → ¬ t.Hollow) := by
  have hzero : ∀ {m}, role m = .plain → m ≠ 0 := by
    rintro m hm rfl
    exact absurd (ht.error.symm.trans hm) (by simp)
  induction hc with
  | nil => exact ⟨hq, rfl, by simp⟩
  | @tree p m t ts d _ hj ih =>
    obtain ⟨hm, hd, hts⟩ := ih
    replace hj : t.Leads lang role p m := hj
    cases hx : t.extra with
    | true =>
      refine ⟨hj.extra hx ▸ hm, by simp [hd, hx], fun u hu hux => ?_⟩
      rcases List.mem_cons.mp hu with rfl | hu
      · exact absurd (hx.symm.trans hux) (by simp)
      · exact hts u hu hux
    | false =>
      refine ⟨hj.plain hx (hzero hm), by simp [hd, hx], fun u hu hux => ?_⟩
      rcases List.mem_cons.mp hu with rfl | hu
      · exact ⟨fun h => hzero hm (hj.skipped h), fun htext h => hj.hollow htext hx h hm⟩
      · exact hts u hu hux
  | mark _ hj ih => exact absurd hj (hzero ih.1)

/-- What a rule is made of has the parts that count of the way on which the stack was walked down. -/
theorem filter_splitTrailing (ts : List (Tree σ)) :
    (splitTrailing ts).1.filter (!·.extra) = ts.filter (!·.extra) := by
  have htrailing : (splitTrailing ts).2.filter (!·.extra) = [] :=
    List.filter_eq_nil_iff.mpr fun t h => by simp [extra_of_mem_trailing h]
  calc (splitTrailing ts).1.filter (!·.extra)
      = ((splitTrailing ts).1 ++ (splitTrailing ts).2).filter (!·.extra) := by
        rw [List.filter_append, htrailing, List.append_nil]
    _ = ts.filter (!·.extra) := by rw [splitTrailing_append]

/-- Trees that count and cost nothing take some text each. -/
theorem count_le_total {ts : List (Tree σ)} (hhollow : ∀ t ∈ ts, t.extra = false → ¬ t.Hollow)
    (hcost : ∀ t ∈ ts, t.cost = 0) :
    (ts.filter (!·.extra)).length ≤ (ts.map (·.total.bytes)).sum := by
  induction ts with
  | nil => simp
  | cons t ts ih =>
    have hrest := ih (fun u hu => hhollow u (List.mem_cons_of_mem _ hu))
      fun u hu => hcost u (List.mem_cons_of_mem _ hu)
    rw [List.map_cons, List.sum_cons]
    cases hx : t.extra with
    | true =>
      rw [List.filter_cons_of_neg (by simp [hx])]
      omega
    | false =>
      have hpos : t.total.bytes ≠ 0 := fun h =>
        hhollow t List.mem_cons_self hx ⟨hcost t List.mem_cons_self, h⟩
      rw [List.filter_cons_of_pos (by simp [hx]), List.length_cons]
      omega

/-- The blanks in front of the first tree are no part of the whole. -/
theorem count_le_size {ts : List (Tree σ)} (hhollow : ∀ t ∈ ts, t.extra = false → ¬ t.Hollow)
    (hcost : ∀ t ∈ ts, t.cost = 0) :
    (ts.filter (!·.extra)).length ≤ (Tree.sizeOf ts).bytes + 1 := by
  cases ts with
  | nil => simp
  | cons t ts =>
    have hrest := count_le_total (fun u hu => hhollow u (List.mem_cons_of_mem _ hu))
      fun u hu => hcost u (List.mem_cons_of_mem _ hu)
    have hfirst : ((t :: ts).filter (!·.extra)).length ≤ (ts.filter (!·.extra)).length + 1 := by
      rw [List.filter_cons]
      split <;> simp
    rw [Tree.bytes_sizeOf_cons]
    omega

theorem next_ruleSymbol (p rule : Nat) : lang.table.next p (lang.table.grammar.ruleSymbol rule) =
    (lang.table.state p).gotos.getD rule 0 := by
  simp [Table.next, Productions.rule?, Productions.ruleSymbol]

/-- Only the rule of whole texts can lead behind a whole text. -/
theorem next_rule (ht : lang.table.Ordered role) {p rule : Nat}
    (h : lang.table.next p (lang.table.grammar.ruleSymbol rule) ≠ 0) :
    role p = .plain ∧
      (role (lang.table.next p (lang.table.grammar.ruleSymbol rule)) = .final ↔ rule = 0) := by
  rw [next_ruleSymbol] at h ⊢
  obtain ⟨hp, hzero, hother⟩ := ht.goto p rule _ rfl h
  refine ⟨hp, fun hf => ?_, hzero⟩
  by_cases hr : rule = 0
  · exact hr
  · exact absurd hf (hother hr)

theorem mem_terminals {n : Nat} (h : n ∈ lang.table.terminals) :
    n < lang.table.grammar.terminalCount ∧ n ≠ lang.table.grammar.endSymbol := by
  rcases List.mem_append.mp h with h | h
  · obtain ⟨i, hi, rfl⟩ := List.mem_map.mp h
    have := List.mem_range.mp hi
    unfold Productions.tokenSymbol Productions.terminalCount Productions.endSymbol
    omega
  · have := List.mem_range.mp h
    unfold Productions.terminalCount Productions.endSymbol
    omega

/-- The state that a token leads to is where it is taken, or where a rule is completed with it. -/
theorem action?_of_next {p n : Nat} (hn : n ∈ lang.table.terminals)
    (hzero : lang.table.next p n ≠ 0) (hsame : lang.table.next p n ≠ p) :
    lang.table.action? p n = some (.shift (lang.table.next p n)) ∨ ∃ rule count aliases,
      lang.table.action? p n = some (.reduce rule count aliases (some (lang.table.next p n))) := by
  have hrule : lang.table.grammar.rule? n = none := by
    simp [Productions.rule?, (mem_terminals hn).1]
  unfold Table.next at hzero hsame ⊢
  rw [hrule] at hzero hsame ⊢
  cases ha : lang.table.action? p n with
  | none => simp [ha] at hzero
  | some a =>
    rw [ha] at hzero hsame
    cases a with
    | shift m => exact .inl rfl
    | reduce rule count aliases again =>
      cases again with
      | none => simp at hzero
      | some m => exact .inr ⟨rule, count, aliases, rfl⟩
    | extra => simp at hsame
    | accept => simp at hzero
    | recover => simp at hzero

/-- A token leads from a plain state to one that is not behind a whole text. -/
theorem next_terminal (ht : lang.table.Ordered role) {p n : Nat} (hn : n ∈ lang.table.terminals)
    (hzero : lang.table.next p n ≠ 0) (hsame : lang.table.next p n ≠ p) :
    n ≠ lang.table.grammar.endSymbol ∧ role p = .plain ∧ role (lang.table.next p n) ≠ .final := by
  refine ⟨(mem_terminals hn).2, ?_⟩
  rcases action?_of_next hn hzero hsame with ha | ⟨rule, count, aliases, ha⟩
  · have hfits := ht.action p n _ ha
    exact ⟨hfits.1, hfits.2.2⟩
  · have hfits := ht.action p n _ ha
    exact ⟨hfits.1, hfits.2.2 _ rfl⟩

/-- The tree of a rule. -/
theorem reduce_proper (ht : lang.table.Ordered role) {p q n rule count : Nat} {ts : List (Tree σ)}
    {aliases : List (Option Label)} {again : Option Nat}
    (hc : Chain (Joined lang role) q p ts count) (hs : ∀ t ∈ ts, t.AllProper lang)
    (ha : lang.table.action? q n = some (.reduce rule count aliases again)) :
    let t := Tree.node lang.table.grammar (.symbol (lang.table.grammar.ruleSymbol rule))
      (splitTrailing ts).1 aliases
    t.AllProper lang ∧ t.Leads lang role p
      (lang.table.next p (lang.table.grammar.ruleSymbol rule)) := by
  obtain ⟨hq, hoffers, -⟩ := ht.action q n _ ha
  obtain ⟨-, hcount, hts⟩ := chain_plain ht hc hq
  rw [← filter_splitTrailing] at hcount
  have hmem : ∀ t ∈ (splitTrailing ts).1, t ∈ ts := fun t h =>
    splitTrailing_append ts ▸ List.mem_append_left _ h
  have hskipped : ∀ t ∈ (splitTrailing ts).1, t.kind ≠ .skipped := fun t h => by
    cases hx : t.extra with
    | true => exact (hs t (hmem t h)).proper.extra hx
    | false => exact (hts t (hmem t h) hx).1
  have hhollow : lang.TakesText → ∀ t ∈ (splitTrailing ts).1, t.extra = false → ¬ t.Hollow :=
    fun htext t h hx => (hts t (hmem t h) hx).2 htext
  generalize (splitTrailing ts).1 = own at hmem hskipped hhollow hcount
  -- without errors in the whole there are none in the parts
  have hcost : (Tree.node lang.table.grammar (.symbol (lang.table.grammar.ruleSymbol rule)) own
      aliases).cost = 0 → ∀ t ∈ own, t.cost = 0 := by
    intro h t hmem
    rw [Tree.cost_node_symbol, List.sum_eq_zero_iff_forall_eq_nat] at h
    have := h _ (List.mem_map_of_mem hmem)
    rwa [if_neg (hskipped t hmem)] at this
  intro t
  refine ⟨⟨⟨?_, ?_, ?_, ?_, ?_, ?_⟩, ?_⟩, ?_⟩
  · simp [t]
  · simp [t]
  · simp [t]
  · intro h c hc
    rw [Tree.node_children] at hc
    exact ⟨hskipped c hc, hcost h c hc⟩
  · simp only [t, Tree.node_children, Tree.node_size]
    exact fun c hc => Tree.size_le_sizeOf hc
  · intro htext h
    refine .inr ⟨rule, count, by simpa [t] using hoffers, ?_⟩
    rw [Tree.node_size, hcount]
    exact count_le_size (hhollow htext) (hcost h)
  · simp only [t, Tree.node_children]
    exact fun c hc => hs c (hmem c hc)
  refine ⟨by simp [t], by simp [t], by simp [t], fun _ h => (next_rule ht h).1, fun _ h => ?_, ?_⟩
  · have hne : lang.table.next p (lang.table.grammar.ruleSymbol rule) ≠ 0 := fun h0 => by
      rw [h0, ht.error] at h
      exact absurd h (by simp)
    obtain rfl := (next_rule ht hne).2.mp h
    exact ⟨Tree.inner_node _ _ _ _, .inr (by simp [t])⟩
  · intro htext _ ⟨hzero, hbytes⟩
    rw [Tree.bytes_total_node] at hbytes
    -- a tree without text has no parts that count
    have hnil : own.filter (!·.extra) = [] := by
      have hle := count_le_total (hhollow htext) (hcost hzero)
      exact List.length_eq_zero_iff.mp (by omega)
    obtain ⟨f, steps, hf, hsteps, hlen, -⟩ := hoffers
    rw [hcount, hnil] at hlen
    obtain rfl := htext.rules rule f hf (List.length_eq_zero_iff.mp hlen.symm ▸ hsteps)
    by_cases hne : lang.table.next p (lang.table.grammar.ruleSymbol 0) = 0
    · rw [hne, ht.error]
      simp
    · rw [(next_rule ht hne).2.mpr rfl]
      simp

/-! ## The discipline -/

/-- The discipline of a table whose states have roles. -/
def discipline (ht : lang.table.Ordered role) (hl : lang.ScansForward) : Discipline lang where
  sound := Tree.AllProper lang
  joins := Joined lang role
  token t := IsLeaf lang.table.grammar t ∧ (lang.TakesText → lang.Solid t)
  token_extra h := h.1.extra
  token_sound h hb := allProper_leaf h.1.children h.1.aliases h.1.label h.1.kind hb
  children_sound h hc := h.children hc
  sound_error h := h.proper.error
  error_sound h := allProper_wrong (.inl rfl) (fun _ => rfl) h
  skipped_sound {ts} h := by
    have hnode := allProper_wrong (b := false) (.inr rfl) (by simp) h
    generalize hn : Tree.node lang.table.grammar .skipped ts [] = t at hnode ⊢
    have hx : t.extra = false := hn ▸ Tree.node_extra ..
    cases t
    subst hx
    exact hnode
  missing_sound := allProper_leaf rfl rfl rfl (by simp [Tree.leaf]) (by simp [Tree.leaf])
  shift_joins {t n p q} htok hk ha := by
    obtain ⟨hp, hn, hq⟩ := ht.action p n _ ha
    refine ⟨by simp, by simp [hk], by simp [hk], fun _ _ => hp, fun _ h => absurd h hq, ?_⟩
    intro htext _ ⟨_, hbytes⟩
    have hpos : 0 < t.total.bytes := htok.2 htext n hk hn
    exact absurd hbytes (Nat.ne_of_gt hpos)
  extra_joins {t p} hs hx := by
    refine ⟨fun _ => rfl, fun _ => hx, fun h => absurd h (hs.proper.extra hx), ?_, ?_, ?_⟩
    all_goals simp [hx]
  reduce hc hs ha := reduce_proper ht hc hs ha
  missing_joins {n p state} hn hzero hsame := by
    obtain ⟨hend, hp, hfinal⟩ := next_terminal ht hn hzero hsame
    refine ⟨?_, ?_, ?_, fun _ _ => hp, fun _ h => absurd h hfinal, ?_⟩
    · simp [Tree.leaf, hend]
    · simp [Tree.leaf]
    · simp [Tree.leaf]
    · intro _ _ ⟨hcost, _⟩
      exact absurd hcost (by simp [Tree.cost, costs])
  mark_joins := rfl
  skipped_joins {p ts} := by
    refine ⟨by simp, by simp, fun _ => rfl, fun _ h => absurd rfl h, fun _ h => ?_, fun _ _ _ => ?_⟩
    · exact absurd (ht.error.symm.trans h) (by simp)
    · simp [ht.error]
  joins_error h := h.error
  joins_extra h := h.extra
  joins_mark h := h
  joins_accept {p q t n} h hx ha := h.final hx (ht.action q n _ ha).1
  accept_end {q n} ha := by
    obtain ⟨hq, hn⟩ := ht.action q n _ ha
    refine ⟨hn, ?_⟩
    rintro rfl
    exact absurd (ht.error.symm.trans hq) (by simp)
  forward := hl
  lex_token {_ s h state} := ⟨(lex_fits hl s h state).2, fun htext => lex_solid hl htext s h state⟩

/-- The tree of a text that a grammar describes. -/
theorem parse_shape {g : Grammar} (hg : g.productions.Tidy) (hlang : lang.table = .ofGrammar g)
    (hl : lang.ScansForward) [DecidableEq σ] {cs : List Char} {t : Tree σ}
    (h : lang.parse cs = some t) :
    t.Entire g.productions ∧ t.label = Tree.labelOf g.productions t.kind ∧
      (∀ c ∈ t.children, c.AllProper lang) ∧ ∃ w rest, cs = w ++ rest ∧ t.Covers w := by
  obtain ⟨role, ht⟩ := Table.exists_ordered hg
  rw [← hlang] at ht
  obtain ⟨hentire, hlabel, hchildren, -, hcovers⟩ := parse_whole (discipline ht hl) h
  rw [hlang, Table.ofGrammar_grammar] at hentire hlabel
  exact ⟨hentire, hlabel, hchildren, hcovers⟩

end Language

end BaselineAudit.Parsing
