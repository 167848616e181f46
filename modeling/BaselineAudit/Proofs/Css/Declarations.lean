import BaselineAudit.Css.Declarations
import BaselineAudit.Proofs.Parsing.Shape

/-!
# Where declarations stand

A declaration that counts has a property and no errors in it, so it takes some text: it starts two
bytes in front of the end of the style sheet, or earlier.

* `scan_forward`, `takesText`: the scanner only finds places behind the one it is given, and every
  token takes some text.
* `Filled`: a part with a property and without errors takes two bytes at least.
* `parse_startsBefore`: so each declaration of a style sheet starts in front of its end.
-/

namespace BaselineAudit.Css

open Parsing

/-! ## Scanning -/

/-- A colon that belongs to a selector is a character behind the place at which it is looked for. -/
theorem scanColon_spec {p : Place} {found : Place × Place} (h : scanColon p = some found) :
    p.Reaches found.1 ∧ p.Reaches found.2 ∧ p.bytes < found.2.bytes := by
  have hstart := p.reaches_skipWhile isBlank
  unfold scanColon at h
  simp only at h
  generalize p.skipWhile isBlank = start at h hstart
  split at h
  · rename_i cs hrest
    split at h
    · exact absurd h (by simp)
    · split at h
      · rw [← Option.some.inj h]
        have hle := hstart.bytes_le
        have hlt : start.bytes < start.next.bytes := by
          simp [Place.next, hrest, Place.bytes, Extent.ofChar, Char.utf8Size_pos]
        exact ⟨hstart, hstart.trans start.reaches_next, Nat.lt_of_le_of_lt hle hlt⟩
      · exact absurd h (by simp)
  · exact absurd h (by simp)

theorem scanDescendant_eq {p q : Place} (h : scanDescendant p = some (some q)) :
    q = p.skipWhile isBlank := by
  unfold scanDescendant at h
  simp only at h
  split at h
  · exact absurd h (by simp)
  · split at h
    · exact (Option.some.inj (Option.some.inj h)).symm
    · split at h
      · split at h
        · exact absurd h (by simp)
        · split at h
          · exact (Option.some.inj (Option.some.inj h)).symm
          · exact absurd h (by simp)
      · exact absurd h (by simp)

theorem scanColon_found {wanted : Bool} {p : Place} {r : Scanned Unit}
    (h : (if wanted = true then
      (scanColon p).map fun (start, stop) => Scanned.mk 1 start stop () else none) = some r) :
    p.Reaches r.start ∧ p.Reaches r.stop ∧ p.bytes < r.stop.bytes := by
  split at h
  · obtain ⟨found, hfound, rfl⟩ := Option.map_eq_some_iff.mp h
    exact scanColon_spec hfound
  · exact absurd h (by simp)

/-- What the scanner finds lies behind the place that it is given, and takes some text. -/
theorem scan_spec {memory : Unit} {wanted : NatSet} {p : Place} {r : Scanned Unit}
    (h : scan memory wanted p = some r) :
    p.Reaches r.start ∧ p.Reaches r.stop ∧ p.bytes < r.stop.bytes := by
  have hmark := Language.reaches_skipMark p
  have hle := hmark.bytes_le
  unfold scan at h
  simp only at h
  generalize Language.skipMark p = m at h hmark hle
  have hcolon : m.Reaches r.start ∧ m.Reaches r.stop ∧ m.bytes < r.stop.bytes →
      p.Reaches r.start ∧ p.Reaches r.stop ∧ p.bytes < r.stop.bytes := by
    rintro ⟨hstart, hstop, hlt⟩
    exact ⟨hmark.trans hstart, hmark.trans hstop, Nat.lt_of_le_of_lt hle hlt⟩
  split at h
  · exact absurd h (by simp)
  · split at h
    · rename_i hblank
      simp only [Bool.and_eq_true] at hblank
      split at h
      · rename_i after hafter
        rw [← Option.some.inj h]
        obtain rfl := scanDescendant_eq hafter
        have hreaches := hmark.trans (m.reaches_skipWhile isBlank)
        exact ⟨hreaches, hreaches, Nat.lt_of_le_of_lt hle (Place.bytes_lt_skipWhile hblank.2)⟩
      · exact absurd h (by simp)
      · exact hcolon (scanColon_found h)
    · exact hcolon (scanColon_found h)

/-! ## The grammar -/

/-- No rule mentions that of whole texts or the end of the text, a property stands in a part with at
least two other things, and only whole texts can be empty. -/
theorem families_checked :
    (∀ f ∈ grammar.productions.families, ∀ steps ∈ f.alternatives,
      (∀ s ∈ steps, s.symbol ≠ grammar.productions.ruleSymbol 0 ∧
        s.symbol ≠ grammar.productions.endSymbol) ∧
      (((trimAliases (steps.map (·.shownAs))).any fun l => l.any (·.name == "property_name")) →
        3 ≤ steps.length)) ∧
    ∀ f ∈ grammar.productions.families.toList.tail, [] ∉ f.alternatives := by
  -- in one statement, so that the rules are spelled out once
  decide +kernel

theorem tidy_grammar : grammar.productions.Tidy where
  steps f hf steps hsteps := (families_checked.1 f hf steps hsteps).1
  extras := by decide +kernel
  shown := by decide +kernel

theorem grammar_eq : language.get.table.grammar = grammar.productions :=
  Table.ofGrammar_grammar grammar

theorem scan_forward : language.get.ScansForward := fun {memory wanted p r} h =>
  ⟨(@scan_spec memory wanted p r h).1, (@scan_spec memory wanted p r h).2.1⟩

theorem takesText : language.get.TakesText where
  tokens := by
    rw [grammar_eq]
    decide +kernel
  scan {memory wanted p r} h := (@scan_spec memory wanted p r h).2.2
  rules := by
    rw [grammar_eq]
    intro rule f hf hnil
    cases rule with
    | zero => rfl
    | succ rule =>
      refine absurd hnil (families_checked.2 f (List.mem_of_getElem? (i := rule) ?_))
      rw [List.getElem?_tail, Array.getElem?_toList]
      exact hf

/-- A property stands in a part with at least two other things. -/
theorem three_le_of_offers {rule count : Nat} {aliases : List (Option Label)} {l : Label}
    (h : grammar.productions.Offers rule count aliases) (hl : some l ∈ aliases)
    (hname : l.name = "property_name") : 3 ≤ count := by
  obtain ⟨f, steps, hf, hsteps, rfl, rfl⟩ := h
  refine (families_checked.1 f (Array.mem_of_getElem? hf) steps hsteps).2
    (List.any_eq_true.mpr ⟨some l, hl, ?_⟩)
  simp [hname]

theorem labelOf_ne {kind : Kind} {l : Label}
    (h : Tree.labelOf grammar.productions kind = some l) : l.name ≠ "property_name" := by
  have hall : ∀ x ∈ grammar.productions.labels, ∀ l, x = some l → l.name ≠ "property_name" := by
    decide +kernel
  cases kind with
  | symbol n =>
    rw [Tree.labelOf, Array.getD_eq_getD_getElem?] at h
    cases hn : grammar.productions.labels[n]? with
    | none => rw [hn] at h; exact absurd h (by simp)
    | some x =>
      rw [hn, Option.getD_some] at h
      exact hall x (Array.mem_of_getElem? hn) l h
  | error =>
    rw [← Option.some.inj h]
    decide
  | skipped => exact absurd h (by simp [Tree.labelOf])

/-! ## Declarations that take text -/

/-- A part with a property and without errors takes two bytes at least, and so do all parts in
it. -/
inductive Filled : Node → Prop
  | mk {n : Node} :
    (n.hasError = false → (∃ c ∈ n.children, c.label.name = "property_name") → 1 < n.size.bytes) →
      (∀ c ∈ n.children, Filled c) → Filled n

/-- The first of several trees is shown under one of their names, or under its own. -/
theorem nodesOfAll_cons (e : Extent) (aliases : List (Option Label)) (after : List Node)
    (t : Parsing.Tree Unit) (ts : List (Parsing.Tree Unit)) : ∃ shown aliases',
      Tree.nodesOfAll e aliases after (t :: ts) =
        Tree.nodesOf e shown (Tree.nodesOfAll (e + t.total) aliases' after ts) t ∧
      (∀ l, shown = some l → some l ∈ aliases) ∧ ∀ l, some l ∈ aliases' → some l ∈ aliases := by
  rw [Tree.nodesOfAll]
  cases t.extra with
  | true => exact ⟨none, aliases, rfl, by simp, fun _ h => h⟩
  | false =>
    refine ⟨aliases.head?.join, aliases.tail, rfl, fun l h => ?_, fun _ h => List.mem_of_mem_tail h⟩
    exact List.mem_of_head? (Option.join_eq_some_iff.mp h)

/-- What is in a tree without errors takes two bytes where a property is named, or something in it
does. -/
theorem one_lt_size_of_part {t : Parsing.Tree Unit} (ht : t.Proper language.get)
    (hcost : t.cost = 0) (h : (∃ l, some l ∈ t.aliases ∧ l.name = "property_name") ∨
      ∃ c ∈ t.children, 1 < c.size.bytes) :
    1 < t.size.bytes := by
  rcases h with ⟨l, hl, hname⟩ | ⟨c, hc, hpos⟩
  · rcases ht.text takesText hcost with hnil | ⟨rule, count, hoffers, hsize⟩
    · exact absurd hl (by simp [hnil])
    · rw [grammar_eq] at hoffers
      have hcount := three_le_of_offers hoffers hl hname
      omega
  · exact Nat.lt_of_lt_of_le hpos (ht.size c hc)

section

variable {n : Node}

mutual

/-- Where a tree without errors shows a property, it takes two bytes. -/
theorem one_lt_size_of_mem_nodesOf : (t : Parsing.Tree Unit) → {e : Extent} →
    {shown : Option Label} → {after : List Node} → n.label.name = "property_name" →
    t.AllProper language.get → t.cost = 0 → n ∈ t.nodesOf e shown after →
    n ∈ after ∨ (∃ l, shown = some l ∧ l.name = "property_name") ∨ 1 < t.size.bytes
  | ⟨kind, label, padding, size, children, aliases, extra, missing, cost, sc, sd, m, lm, cm, fs⟩,
      e, shown, after, hname, ht, hcost, hn => by
    rw [Tree.nodesOf] at hn
    split at hn
    · rename_i l hl
      rcases List.mem_cons.mp hn with rfl | hn
      · cases shown with
        | some s => exact .inr (.inl ⟨s, rfl, Option.some.inj hl ▸ hname⟩)
        | none =>
          have hlabel : label = Tree.labelOf language.get.table.grammar kind := ht.proper.label
          rw [grammar_eq] at hlabel
          exact absurd hname (labelOf_ne (hlabel.symm.trans hl))
      · exact .inl hn
    · have hparts := one_lt_size_of_mem_nodesOfAll children hname (fun c hc => ht.children hc)
        (fun c hc => (ht.proper.cost hcost c hc).2) hn
      exact hparts.imp_right fun h => .inr (one_lt_size_of_part ht.proper hcost h)

/-- The same for several trees. -/
theorem one_lt_size_of_mem_nodesOfAll : (ts : List (Parsing.Tree Unit)) → {e : Extent} →
    {aliases : List (Option Label)} → {after : List Node} → n.label.name = "property_name" →
    (∀ t ∈ ts, t.AllProper language.get) → (∀ t ∈ ts, t.cost = 0) →
    n ∈ Tree.nodesOfAll e aliases after ts →
    n ∈ after ∨ (∃ l, some l ∈ aliases ∧ l.name = "property_name") ∨ ∃ t ∈ ts, 1 < t.size.bytes
  | [], e, aliases, after, _, _, _, hn => .inl (by rwa [Tree.nodesOfAll] at hn)
  | t :: ts, e, aliases, after, hname, ht, hcost, hn => by
    obtain ⟨shown, aliases', heq, hshown, haliases⟩ := nodesOfAll_cons e aliases after t ts
    rw [heq] at hn
    rcases one_lt_size_of_mem_nodesOf t hname (ht t (by simp)) (hcost t (by simp)) hn with
      hn | ⟨l, hl, hlname⟩ | hpos
    · rcases one_lt_size_of_mem_nodesOfAll ts hname (fun u hu => ht u (by simp [hu]))
        (fun u hu => hcost u (by simp [hu])) hn with hn | ⟨l, hl, hlname⟩ | ⟨u, hu, hpos⟩
      · exact .inl hn
      · exact .inr (.inl ⟨l, haliases l hl, hlname⟩)
      · exact .inr (.inr ⟨u, by simp [hu], hpos⟩)
    · exact .inr (.inl ⟨l, hshown l hl, hlname⟩)
    · exact .inr (.inr ⟨t, by simp, hpos⟩)

end

end

mutual

/-- The shown parts of a proper tree are filled. -/
theorem filled_nodesOf : (t : Parsing.Tree Unit) → {e : Extent} → {shown : Option Label} →
    {after : List Node} → t.AllProper language.get → (∀ n ∈ after, Filled n) →
    ∀ n ∈ t.nodesOf e shown after, Filled n
  | ⟨kind, label, padding, size, children, aliases, extra, missing, cost, sc, sd, m, lm, cm, fs⟩,
      e, shown, after, ht, hafter => by
    intro n hn
    rw [Tree.nodesOf] at hn
    split at hn
    · rcases List.mem_cons.mp hn with rfl | hn
      · refine ⟨fun herror ⟨c, hc, hname⟩ => ?_, ?_⟩
        · simp only [Bool.or_eq_false_iff, bne_eq_false_iff_eq] at herror
          obtain ⟨rfl, rfl⟩ := herror
          refine one_lt_size_of_part ht.proper rfl ?_
          exact (one_lt_size_of_mem_nodesOfAll children hname (fun c hc => ht.children hc)
            (fun c hc => (ht.proper.cost rfl c hc).2) hc).resolve_left (by simp)
        · exact filled_nodesOfAll children (fun c hc => ht.children hc) (by simp)
      · exact hafter n hn
    · exact filled_nodesOfAll children (fun c hc => ht.children hc) hafter n hn

/-- The shown parts of proper trees are filled. -/
theorem filled_nodesOfAll : (ts : List (Parsing.Tree Unit)) → {e : Extent} →
    {aliases : List (Option Label)} → {after : List Node} →
    (∀ t ∈ ts, t.AllProper language.get) → (∀ n ∈ after, Filled n) →
    ∀ n ∈ Tree.nodesOfAll e aliases after ts, Filled n
  | [], e, aliases, after, _, hafter => by rwa [Tree.nodesOfAll]
  | t :: ts, e, aliases, after, ht, hafter => by
    obtain ⟨shown, aliases', heq, -, -⟩ := nodesOfAll_cons e aliases after t ts
    rw [heq]
    exact filled_nodesOf t (ht t (by simp))
      (filled_nodesOfAll ts (fun u hu => ht u (by simp [hu])) hafter)

end

/-! ## Declarations by their places -/

/-- A declaration starts two bytes in front of offset `stop`, or earlier. -/
def Declaration.StartsBefore (locate : Nat → Location) (stop : Nat) (d : Declaration) : Prop :=
  ∃ o, o + 2 ≤ stop ∧ d.location = locate o

section

variable {cs : List Char} {locate : Nat → Location}

/-- A declaration is read off a node that has no errors and a property. -/
theorem declaration?_eq_some_iff {n : Node} {d : Declaration} :
    declaration? cs locate n = some d ↔ n.hasError = false ∧
      ∃ name, n.namedChildren.find? (·.isNamed "property_name") = some name ∧
        d = ⟨(name.text cs).map Char.toLower, identifiersOfAll cs n.children,
          locate n.start.bytes⟩ := by
  unfold declaration?
  cases n.hasError with
  | true => simp
  | false => simp [Option.bind_eq_some_iff, @eq_comm _ d]

theorem declaration?_startsBefore {n : Node} {e : Extent} {w : List Char} (hf : Filled n)
    (hn : n.Laid e w) {d : Declaration} (hd : declaration? cs locate n = some d) :
    d.StartsBefore locate (e.bytes + byteCount w) := by
  obtain ⟨hpos, -⟩ := hf
  obtain ⟨⟨front, text, rfl, hstart, hsize⟩, -⟩ := Node.laid_iff.mp hn
  obtain ⟨herror, name, hfind, rfl⟩ := declaration?_eq_some_iff.mp hd
  have hmem := List.mem_of_mem_filter (List.mem_of_find?_eq_some hfind)
  have hname : name.label.name = "property_name" := by
    simpa [Node.isNamed] using List.find?_some hfind
  have hlt := hpos herror ⟨name, hmem, hname⟩
  refine ⟨n.start.bytes, ?_, rfl⟩
  rw [hsize, Extent.bytes_ofChars] at hlt
  rw [hstart, Extent.bytes_add, Extent.bytes_ofChars, byteCount_append]
  omega

mutual

theorem declarationsOf_startsBefore : (n : Node) → {e : Extent} → {w : List Char} → Filled n →
    n.Laid e w → ∀ d ∈ declarationsOf cs locate n, d.StartsBefore locate (e.bytes + byteCount w)
  | ⟨label, start, size, hasError, children⟩, e, w, hf, hn => by
    intro d hd
    rw [declarationsOf] at hd
    split at hd
    · exact absurd hd List.not_mem_nil
    · split at hd
      · exact declaration?_startsBefore hf hn (Option.mem_toList.mp hd)
      · obtain ⟨-, hchildren⟩ := hf
        exact declarationsOfAll_startsBefore children hchildren (Node.laid_iff.mp hn).2 d hd

/-- The declarations of filled parts start in front of the end of their text. -/
theorem declarationsOfAll_startsBefore : (ns : List Node) → {e : Extent} → {w : List Char} →
    (∀ n ∈ ns, Filled n) → Node.LaidAll e w ns →
    ∀ d ∈ declarationsOfAll cs locate ns, d.StartsBefore locate (e.bytes + byteCount w)
  | [], _, _, _, _ => fun d hd => absurd hd (by simp [declarationsOfAll])
  | n :: ns, e, w, hf, hn => by
    obtain ⟨u, v, rfl, hu, hv⟩ := Node.laidAll_cons.mp hn
    intro d hd
    rw [declarationsOfAll] at hd
    rw [byteCount_append]
    rcases List.mem_append.mp hd with hd | hd
    · obtain ⟨o, ho, hd⟩ := declarationsOf_startsBefore n (hf n (by simp)) hu d hd
      exact ⟨o, by omega, hd⟩
    · obtain ⟨o, ho, hd⟩ :=
        declarationsOfAll_startsBefore ns (fun m hm => hf m (by simp [hm])) hv d hd
      rw [Extent.bytes_add, Extent.bytes_ofChars] at ho
      exact ⟨o, by omega, hd⟩

end

/-- What is parsed is one part, which stands at the start of the text and is no declaration. -/
theorem parse_root {tree : Parsing.Tree Unit} (h : language.get.parse cs = some tree) :
    ∃ (n : Node) (u v : List Char), tree.nodes = [n] ∧ cs = u ++ v ∧ n.label.named = true ∧
      n.label.name ≠ "declaration" ∧ n.children = Tree.nodesOfAll {} tree.aliases [] tree.children ∧
      Node.LaidAll {} u n.children ∧ ∀ c ∈ tree.children, c.AllProper language.get := by
  obtain ⟨⟨-, hkind⟩, hlabel, hchildren, w, rest, rfl, hcovers⟩ :=
    Language.parse_shape tidy_grammar rfl scan_forward h
  obtain ⟨name, hshown, hdecl⟩ : ∃ name, tree.label = some ⟨name, true⟩ ∧ name ≠ "declaration" := by
    rw [hlabel]
    rcases hkind with hk | hk
    · exact ⟨"ERROR", by rw [hk]; rfl, by decide⟩
    · refine ⟨"stylesheet", ?_, by decide⟩
      rw [hk]
      decide +kernel
  obtain ⟨n, hnodes, hn, hparts⟩ := Tree.nodes_of_label hshown
  have hlaid := Tree.nodes_laid hcovers
  rw [hnodes] at hlaid
  obtain ⟨u, v, rfl, hu, -⟩ := Node.laidAll_cons.mp hlaid
  refine ⟨n, u, v ++ rest, hnodes, List.append_assoc .., ?_, ?_, hparts, (Node.laid_iff.mp hu).2,
    hchildren⟩
  · rw [hn]
  · rwa [hn]

/-- Each declaration of a style sheet starts two bytes in front of its end, or earlier. -/
theorem parse_startsBefore {tree : Parsing.Tree Unit} (h : language.get.parse cs = some tree) :
    ∀ d ∈ declarationsOfAll cs locate tree.nodes, d.StartsBefore locate (byteCount cs) := by
  obtain ⟨n, u, v, hnodes, rfl, hnamed, hdecl, hparts, hlaid, hchildren⟩ := parse_root h
  have hfilled : ∀ c ∈ n.children, Filled c := by
    rw [hparts]
    exact filled_nodesOfAll tree.children hchildren (by simp)
  intro d hd
  -- a whole text is no declaration
  have hinner : d ∈ declarationsOfAll (u ++ v) locate n.children := by
    obtain ⟨label, start, size, hasError, children⟩ := n
    simp only at hnamed hdecl
    rw [hnodes, declarationsOfAll, declarationsOfAll, List.append_nil, declarationsOf] at hd
    simpa [hnamed, hdecl] using hd
  obtain ⟨o, ho, hloc⟩ := declarationsOfAll_startsBefore n.children hfilled hlaid d hinner
  refine ⟨o, ?_, hloc⟩
  rw [byteCount_append]
  have hzero : ({} : Extent).bytes = 0 := rfl
  omega

end

end BaselineAudit.Css
