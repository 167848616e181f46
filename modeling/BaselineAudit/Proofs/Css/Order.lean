import BaselineAudit.Proofs.Css.Snippets
import BaselineAudit.Proofs.Parsing.Derivation
import BaselineAudit.Proofs.Report.Collector
import Mathlib.Data.List.Dedup
import Mathlib.Data.List.Perm.Lattice

/-!
# Reports on style sheets are in order

A declaration without errors was derived by a rule that starts with a property, so it has one. It takes
some text then, and the declarations of a style sheet start one behind the other. No two of them share a
location, and no usage of one is taken for a repetition of one of another.

* `Titled`: the declarations without errors in a part have a property.
* `declarationNodesIn`: the declarations without errors in a text, in the order of the tree.
* `declarationNodesIn_inOrder`: they start one behind the other.
* `Checker.auditCss_in_order`: the issues of a style sheet, declaration by declaration.
-/

namespace BaselineAudit

namespace Css

open Parsing

/-! ## The rules of declarations -/

/-- The symbol is that of a rule all alternatives of which start with a property. -/
def startsWithProperty (n : Nat) : Bool :=
  decide (grammar.productions.terminalCount ≤ n) &&
    (grammar.productions.alternativesOf (n - grammar.productions.terminalCount)).all fun steps =>
      steps.head?.bind (·.shownAs) == some ⟨"property_name", true⟩

/-- What is shown as a declaration starts with a property, by its own label or by the name that a rule
gives it. Whole texts name none of their parts. -/
theorem declarations_checked :
    (∀ n < grammar.productions.labels.size,
      (grammar.productions.labels.getD n none).any (·.name == "declaration") = true →
        startsWithProperty n = true) ∧
    (∀ f ∈ grammar.productions.families, ∀ steps ∈ f.alternatives, ∀ s ∈ steps,
      s.shownAs.any (·.name == "declaration") = true →
        (grammar.productions.labels.getD s.symbol none).isSome = true ∧
          startsWithProperty s.symbol = true) ∧
    ∀ steps ∈ grammar.productions.alternativesOf 0, ∀ s ∈ steps, s.shownAs = none := by
  decide +kernel

/-- A tree that is shown under a name is a declaration only if its rule starts with a property. -/
def NamedRight (shown : Option Label) (t : Parsing.Tree Unit) : Prop :=
  ∀ l, shown = some l → l.name = "declaration" →
    ∃ n, t.kind = .symbol n ∧ startsWithProperty n = true

theorem namedRight_none (t : Parsing.Tree Unit) : NamedRight none t :=
  fun _ h => absurd h (by simp)

theorem namedRight_labelOf (t : Parsing.Tree Unit) :
    NamedRight (Tree.labelOf grammar.productions t.kind) t := by
  intro l hl hname
  cases hk : t.kind with
  | symbol n =>
    rw [hk, Tree.labelOf] at hl
    refine ⟨n, rfl, declarations_checked.1 n ?_ ?_⟩
    · by_contra hge
      rw [Array.getD_eq_getD_getElem?, Array.getElem?_eq_none (by omega)] at hl
      exact absurd hl (by simp)
    · rw [hl]
      simpa using hname
  | error =>
    rw [hk] at hl
    rw [← Option.some.inj hl] at hname
    exact absurd hname (by decide)
  | skipped =>
    rw [hk] at hl
    exact absurd hl (by simp [Tree.labelOf])

/-- The parts of a rule are named right. -/
theorem namedRight_of_spells {r : Nat} {steps : List Step}
    (hsteps : steps ∈ grammar.productions.alternativesOf r) {s : Step} (hs : s ∈ steps)
    {t : Parsing.Tree Unit} (h : grammar.productions.Spells s t) : NamedRight s.shownAs t := by
  intro l hl hname
  have hany : s.shownAs.any (·.name == "declaration") = true := by simp [hl, hname]
  unfold Productions.alternativesOf at hsteps
  split at hsteps
  · rw [List.mem_singleton.mp hsteps] at hs
    rw [List.mem_singleton.mp hs] at hl
    exact absurd hl (by simp)
  · rw [Array.getD_eq_getD_getElem?] at hsteps
    cases hf : grammar.productions.families[r]? with
    | none =>
      rw [hf] at hsteps
      exact absurd hsteps List.not_mem_nil
    | some f =>
      rw [hf, Option.getD_some] at hsteps
      obtain ⟨hshown, hstarts⟩ :=
        declarations_checked.2.1 f (Array.mem_of_getElem? hf) steps hsteps s hs hany
      obtain ⟨n, hk, hsymbol | hhidden⟩ := h
      · exact ⟨n, hk, hsymbol ▸ hstarts⟩
      · rw [hhidden] at hshown
        exact absurd hshown (by simp)

section

variable {t : Parsing.Tree Unit}

theorem shown_children (ht : t.Derived grammar.productions) :
    Tree.Shown NamedRight t.aliases t.children := by
  cases ht with
  | plain haliases _ _ =>
    rw [haliases]
    exact Tree.shown_of_names (fun c _ => namedRight_none c) (by simp)
  | rule _ hsteps haliases hspells _ =>
    rw [haliases]
    exact Tree.shown_of_spells hspells (fun c _ _ => namedRight_none c)
      fun s hs c _ hsc => namedRight_of_spells hsteps hs hsc

/-- The tree of a rule that starts with a property shows one. -/
theorem exists_property (ht : t.Derived grammar.productions) (hmissing : t.missing = false) {n : Nat}
    (hk : t.kind = .symbol n) (hn : startsWithProperty n = true) (e : Extent) :
    ∃ c ∈ Tree.nodesOfAll e t.aliases [] t.children, c.label = ⟨"property_name", true⟩ := by
  unfold startsWithProperty at hn
  rw [Bool.and_eq_true, decide_eq_true_eq, List.all_eq_true] at hn
  obtain ⟨hle, hfirst⟩ := hn
  cases ht with
  | plain _ hplain _ =>
    rcases hplain with hplain | hplain
    · exact absurd (hmissing.symm.trans hplain) (by simp)
    · exact absurd (hplain n hk) (by omega)
  | @rule _ r steps hrule hsteps haliases hspells _ =>
    obtain rfl : n = grammar.productions.ruleSymbol r := Kind.symbol.inj (hk.symm.trans hrule)
    have hr : grammar.productions.ruleSymbol r - grammar.productions.terminalCount = r :=
      Nat.add_sub_cancel_left ..
    rw [hr] at hfirst
    have hsteps' := hfirst steps hsteps
    rw [beq_iff_eq] at hsteps'
    cases steps with
    | nil => exact absurd hsteps' (by simp)
    | cons s steps =>
      refine Tree.exists_shown ?_ (fun hnil => ?_) e []
      · rw [haliases, List.map_cons, (trimAliases_cons ..).1]
        exact hsteps'
      · rw [hnil] at hspells
        cases hspells

end

/-! ## Declarations have a property -/

/-- The declarations without errors in a part have a property, the part itself included. -/
inductive Titled : Node → Prop
  | mk {n : Node} :
    (n.hasError = false → n.label.name = "declaration" →
      ∃ c ∈ n.children, c.label = ⟨"property_name", true⟩) →
      (∀ c ∈ n.children, Titled c) → Titled n

mutual

/-- The shown parts of a derived tree are titled. -/
theorem titled_nodesOf : (t : Parsing.Tree Unit) → {e : Extent} → {shown : Option Label} →
    {after : List Node} → t.AllProper language.get → t.Derived grammar.productions →
    NamedRight shown t → (∀ n ∈ after, Titled n) → ∀ n ∈ t.nodesOf e shown after, Titled n
  | ⟨kind, label, padding, size, children, aliases, extra, missing, cost, sc, sd, m, lm, cm, fs⟩,
      e, shown, after, hp, ht, hshown, hafter => by
    intro n hn
    rw [Tree.nodesOf] at hn
    have hparts := shown_children ht
    split at hn
    next l hl =>
      rcases List.mem_cons.mp hn with rfl | hn
      · refine ⟨fun herror hname => ?_, ?_⟩
        · simp only [Bool.or_eq_false_iff, bne_eq_false_iff_eq] at herror
          obtain ⟨s, hk, hs⟩ : ∃ s, kind = .symbol s ∧ startsWithProperty s = true := by
            cases shown with
            | some l' => exact hshown l' rfl (Option.some.inj hl ▸ hname)
            | none =>
              have hlabel : label = Tree.labelOf language.get.table.grammar kind := hp.proper.label
              rw [grammar_eq] at hlabel
              exact namedRight_labelOf ⟨kind, label, padding, size, children, aliases, extra, missing,
                cost, sc, sd, m, lm, cm, fs⟩ l (hlabel.symm.trans hl) hname
          exact exists_property ht herror.1 hk hs e
        · exact titled_nodesOfAll children (fun c hc => hp.children hc) (fun c hc => ht.children hc)
            hparts (by simp)
      · exact hafter n hn
    next =>
      exact titled_nodesOfAll children (fun c hc => hp.children hc) (fun c hc => ht.children hc)
        hparts hafter n hn

/-- The shown parts of derived trees are titled if the trees are named right. -/
theorem titled_nodesOfAll : (ts : List (Parsing.Tree Unit)) → {e : Extent} →
    {aliases : List (Option Label)} → {after : List Node} →
    (∀ t ∈ ts, t.AllProper language.get) → (∀ t ∈ ts, t.Derived grammar.productions) →
    Tree.Shown NamedRight aliases ts → (∀ n ∈ after, Titled n) →
    ∀ n ∈ Tree.nodesOfAll e aliases after ts, Titled n
  | [], e, aliases, after, _, _, _, hafter => by rwa [Tree.nodesOfAll]
  | t :: ts, e, aliases, after, hp, ht, hshown, hafter => by
    obtain ⟨name, names, heq, hname, hrest⟩ := hshown.nodesOfAll_cons e after
    rw [heq]
    exact titled_nodesOf t (hp t (by simp)) (ht t (by simp)) hname
      (titled_nodesOfAll ts (fun u hu => hp u (by simp [hu])) (fun u hu => ht u (by simp [hu])) hrest
        hafter)

end

/-! ## The declarations of a text -/

mutual

/-- The declarations without errors in a node. What is in a declaration is not looked at. -/
def declarationNodes : Node → List Node
  | ⟨label, start, size, hasError, children⟩ =>
    if !label.named then []
    else if label.name == "declaration" then
      if hasError then [] else [⟨label, start, size, hasError, children⟩]
    else declarationNodesAll children

/-- The declarations without errors in nodes, in order. -/
def declarationNodesAll : List Node → List Node
  | [] => []
  | n :: rest => declarationNodes n ++ declarationNodesAll rest

end

/-- The declarations without errors in a text. There are none if there is no tree. -/
def declarationNodesIn (cs : List Char) : List Node :=
  (language.get.parse cs).elim [] fun tree => declarationNodesAll tree.nodes

section

variable {cs : List Char} {locate : Nat → Location}

theorem declaration?_of_hasError {n : Node} (h : n.hasError = true) :
    declaration? cs locate n = none := if_pos h

theorem location_of_declaration? {n : Node} {d : Declaration} (h : declaration? cs locate n = some d) :
    d.location = locate n.start.bytes := by
  obtain ⟨-, name, -, rfl⟩ := declaration?_eq_some_iff.mp h
  rfl

/-- A node has no errors, and a property. -/
def Readable (n : Node) : Prop :=
  n.hasError = false ∧ ∃ c ∈ n.children, c.label = ⟨"property_name", true⟩

theorem Readable.exists_declaration {n : Node} (h : Readable n) :
    ∃ d, declaration? cs locate n = some d := by
  obtain ⟨herror, c, hc, hlabel⟩ := h
  have hfound : (n.namedChildren.find? (·.isNamed "property_name")).isSome = true := by
    rw [List.find?_isSome]
    refine ⟨c, List.mem_filter.mpr ⟨hc, by rw [hlabel]⟩, ?_⟩
    simp [Node.isNamed, hlabel]
  obtain ⟨name, hfind⟩ := Option.isSome_iff_exists.mp hfound
  exact ⟨_, declaration?_eq_some_iff.mpr ⟨herror, name, hfind, rfl⟩⟩

mutual

theorem declarationsOf_eq : (n : Node) →
    declarationsOf cs locate n = (declarationNodes n).filterMap (declaration? cs locate)
  | ⟨label, start, size, hasError, children⟩ => by
    rw [declarationsOf, declarationNodes]
    split
    · rfl
    · split
      · cases hasError with
        | true => rw [declaration?_of_hasError rfl]; rfl
        | false =>
          simp only [Bool.false_eq_true, if_false, List.filterMap_cons, List.filterMap_nil]
          cases declaration? cs locate ⟨label, start, size, false, children⟩ <;> rfl
      · exact declarationsOfAll_eq children

/-- The declarations of nodes are what their declarations without errors show. -/
theorem declarationsOfAll_eq : (ns : List Node) →
    declarationsOfAll cs locate ns = (declarationNodesAll ns).filterMap (declaration? cs locate)
  | [] => by simp [declarationsOfAll, declarationNodesAll]
  | n :: ns => by
    rw [declarationsOfAll, declarationNodesAll, List.filterMap_append, declarationsOf_eq n,
      declarationsOfAll_eq ns]

end

end

/-- Readable nodes that start between two offsets, one behind the other. -/
structure InOrder (lo hi : Nat) (ns : List Node) : Prop where
  readable : ∀ n ∈ ns, Readable n
  within : ∀ n ∈ ns, lo ≤ n.start.bytes ∧ n.start.bytes < hi
  sorted : ns.Pairwise fun m n => m.start.bytes < n.start.bytes

theorem InOrder.nil (lo hi : Nat) : InOrder lo hi [] := ⟨by simp, by simp, .nil⟩

theorem InOrder.append {lo mid hi : Nat} {ms ns : List Node} (hm : InOrder lo mid ms)
    (hn : InOrder mid hi ns) (hlo : lo ≤ mid) (hhi : mid ≤ hi) : InOrder lo hi (ms ++ ns) := by
  refine ⟨fun n h => ?_, fun n h => ?_,
    List.pairwise_append.mpr ⟨hm.sorted, hn.sorted, fun m h n h' => ?_⟩⟩
  · exact (List.mem_append.mp h).elim (hm.readable n) (hn.readable n)
  · rcases List.mem_append.mp h with h | h
    · have := hm.within n h
      omega
    · have := hn.within n h
      omega
  · have := hm.within m h
    have := hn.within n h'
    omega

/-- A declaration without errors has a property, so it takes some text. -/
theorem inOrder_singleton {n : Node} {e : Extent} {w : List Char} (ht : Titled n) (hf : Filled n)
    (hn : n.Laid e w) (herror : n.hasError = false) (hname : n.label.name = "declaration") :
    InOrder e.bytes (e.bytes + byteCount w) [n] := by
  obtain ⟨⟨front, text, rfl, hstart, hsize⟩, -⟩ := Node.laid_iff.mp hn
  obtain ⟨hproperty, -⟩ := ht
  obtain ⟨hpos, -⟩ := hf
  obtain ⟨c, hc, hlabel⟩ := hproperty herror hname
  have hlt : 1 < n.size.bytes := hpos herror ⟨c, hc, by rw [hlabel]⟩
  rw [hsize, Extent.bytes_ofChars] at hlt
  refine ⟨fun m hm => ?_, fun m hm => ?_, List.pairwise_singleton ..⟩
  · rw [List.mem_singleton.mp hm]
    exact ⟨herror, c, hc, hlabel⟩
  · rw [List.mem_singleton.mp hm, hstart, Extent.bytes_add, Extent.bytes_ofChars, byteCount_append]
    omega

mutual

/-- The declarations without errors in a part stand in its text, one behind the other. -/
theorem declarationNodes_inOrder : (n : Node) → {e : Extent} → {w : List Char} → Titled n → Filled n →
    n.Laid e w → InOrder e.bytes (e.bytes + byteCount w) (declarationNodes n)
  | ⟨label, start, size, hasError, children⟩, e, w, ht, hf, hn => by
    rw [declarationNodes]
    split
    · exact .nil _ _
    · split
      next hdecl =>
        split
        · exact .nil _ _
        next herror => exact inOrder_singleton ht hf hn (by simpa using herror) (by simpa using hdecl)
      next =>
        obtain ⟨-, htitled⟩ := ht
        obtain ⟨-, hfilled⟩ := hf
        exact declarationNodesAll_inOrder children htitled hfilled (Node.laid_iff.mp hn).2

/-- The same for several parts. -/
theorem declarationNodesAll_inOrder : (ns : List Node) → {e : Extent} → {w : List Char} →
    (∀ n ∈ ns, Titled n) → (∀ n ∈ ns, Filled n) → Node.LaidAll e w ns →
    InOrder e.bytes (e.bytes + byteCount w) (declarationNodesAll ns)
  | [], _, _, _, _, _ => by
    rw [declarationNodesAll]
    exact .nil _ _
  | n :: ns, e, w, ht, hf, hn => by
    obtain ⟨u, v, rfl, hu, hv⟩ := Node.laidAll_cons.mp hn
    have hfirst := declarationNodes_inOrder n (ht n (by simp)) (hf n (by simp)) hu
    have hrest := declarationNodesAll_inOrder ns (fun m hm => ht m (by simp [hm]))
      (fun m hm => hf m (by simp [hm])) hv
    rw [Extent.bytes_add, Extent.bytes_ofChars] at hrest
    rw [declarationNodesAll, byteCount_append, ← Nat.add_assoc]
    exact hfirst.append hrest (by omega) (by omega)

end

/-- The declarations without errors in a text stand in it, one behind the other. -/
theorem declarationNodesIn_inOrder (cs : List Char) :
    InOrder 0 (byteCount cs) (declarationNodesIn cs) := by
  rw [declarationNodesIn]
  cases htree : language.get.parse cs with
  | none => exact .nil _ _
  | some tree =>
    obtain ⟨n, u, v, hnodes, rfl, hnamed, hdecl, hparts, hlaid, hproper⟩ := parse_root htree
    obtain ⟨hderived, haliases⟩ := Language.parse_derived tidy_grammar rfl scan_forward
      (by decide +kernel) htree
    -- whole texts name none of their parts
    have hshown : Tree.Shown NamedRight tree.aliases tree.children := by
      refine Tree.shown_of_names (fun c _ => namedRight_none c) fun l hl => ?_
      rcases haliases with haliases | ⟨steps, hsteps, haliases⟩
      · rw [haliases] at hl
        exact absurd hl List.not_mem_nil
      · rw [haliases] at hl
        obtain ⟨s, hs, hsl⟩ := List.mem_map.mp (mem_of_mem_trimAliases hl)
        exact absurd ((declarations_checked.2.2 steps hsteps s hs).symm.trans hsl) (by simp)
    have htitled : ∀ c ∈ n.children, Titled c := by
      rw [hparts]
      exact titled_nodesOfAll tree.children hproper (fun c hc => (hderived c hc).2) hshown (by simp)
    have hfilled : ∀ c ∈ n.children, Filled c := by
      rw [hparts]
      exact filled_nodesOfAll tree.children hproper (by simp)
    have hinner : declarationNodesAll tree.nodes = declarationNodesAll n.children := by
      obtain ⟨label, start, size, hasError, children⟩ := n
      simp only at hnamed hdecl
      rw [hnodes, declarationNodesAll, declarationNodesAll, List.append_nil, declarationNodes]
      simp [hnamed, hdecl]
    have horder := declarationNodesAll_inOrder n.children htitled hfilled hlaid
    rw [show ({} : Extent).bytes = 0 from rfl, Nat.zero_add] at horder
    rw [Option.elim_some, hinner, byteCount_append]
    -- what is parsed may end in front of the text
    rw [← List.append_nil (declarationNodesAll n.children)]
    exact horder.append (.nil _ _) (Nat.zero_le _) (Nat.le_add_right _ _)

/-- The declarations of a style sheet are what its declarations without errors show. -/
theorem Snippet.declarations_stylesheet (code : String) :
    (⟨code, .stylesheet, .whole⟩ : Snippet).declarations =
      (declarationNodesIn code.toList).filterMap
        (declaration? code.toList (LineIndex.ofText code).locate) := by
  have hsource : (⟨code, .stylesheet, .whole⟩ : Snippet).source = code := by
    simp [source, Form.opening, Form.closing]
  have hlocate : (⟨code, .stylesheet, .whole⟩ : Snippet).locate (.ofText code) =
      (LineIndex.ofText code).locate := by
    funext offset
    have h := locate_eq ⟨code, .stylesheet, .whole⟩ offset
    rw [hsource] at h
    rw [h, LineIndex.locate_eq]
    simp [closed, Form.opening, Form.closing, Origin.map]
  rw [declarations_eq, hsource, hlocate, declarationNodesIn]
  generalize language.get.parse code.toList = tree?
  cases tree? with
  | none => rfl
  | some tree => exact declarationsOfAll_eq tree.nodes

/-- Each declaration without errors in a style sheet shows one, and their locations are in order. -/
theorem Snippet.declarations_inOrder (code : String) :
    (declarationNodesIn code.toList).map (declaration? code.toList (LineIndex.ofText code).locate) =
        (⟨code, .stylesheet, .whole⟩ : Snippet).declarations.map some ∧
      (⟨code, .stylesheet, .whole⟩ : Snippet).declarations.Pairwise
        fun d e => d.location.Before e.location := by
  obtain ⟨hreadable, -, hsorted⟩ := declarationNodesIn_inOrder code.toList
  rw [declarations_stylesheet]
  generalize declarationNodesIn code.toList = ns at hreadable hsorted
  refine ⟨?_, ?_⟩
  · clear hsorted
    induction ns with
    | nil => rfl
    | cons n ns ih =>
      obtain ⟨d, hd⟩ := (hreadable n List.mem_cons_self).exists_declaration
      rw [List.map_cons, List.filterMap_cons_some hd, List.map_cons, hd,
        ih fun m hm => hreadable m (List.mem_cons_of_mem n hm)]
  · refine hsorted.filterMap _ fun m n hlt d hd e he => ?_
    rw [location_of_declaration? hd, location_of_declaration? he, LineIndex.locate_eq,
      LineIndex.locate_eq]
    exact Location.move_before _ _ hlt

end Css

/-! ## Reports -/

namespace Checker

open Css (Declaration)

/-- The issues of a declaration: that of its property, then those of its values, each of which counts
once. -/
def declarationIssues (c : Checker) (d : Declaration) : List Issue :=
  ((.ofProperty d.property d.location ::
    (firstOf id [] d.values).map (.ofPropertyValue d.property · d.location)).filter
      fun u => !c.accepts u.key).map c.issueOf

/-- How many different keys of a declaration do not pass. -/
def breachCount (c : Checker) (d : Declaration) : Nat :=
  ((d.usages.map (·.key)).filter fun key => !c.accepts key).dedup.length

theorem spot_ofPropertyValue_inj (name : String) (l : Location) {v w : String} :
    (Usage.ofPropertyValue name v l).spot = (Usage.ofPropertyValue name w l).spot ↔ v = w := by
  refine ⟨fun h => ?_, fun h => h ▸ rfl⟩
  have hkey := congrArg (fun s => String.toList s.1) h
  simp only [Usage.spot, Usage.ofPropertyValue, String.toList_append] at hkey
  exact String.toList_injective (List.append_cancel_left hkey)

/-- No value has the key of its property. -/
theorem spot_ofProperty_ne (name : String) (l : Location) (v : String) :
    (Usage.ofPropertyValue name v l).spot ≠ (Usage.ofProperty name l).spot := by
  intro h
  have hkey := congrArg (fun s => (String.toList s.1).length) h
  simp [Usage.spot, Usage.ofPropertyValue, Usage.ofProperty] at hkey

/-- What is reported of a declaration on its own. -/
theorem issuesOf_usages (c : Checker) (d : Declaration) :
    c.issuesOf d.usages = c.declarationIssues d := by
  have hvalues : firstOf Usage.spot [] (d.values.map (.ofPropertyValue d.property · d.location)) =
      (firstOf id [] d.values).map (.ofPropertyValue d.property · d.location) :=
    firstOf_map fun v _ w _ => spot_ofPropertyValue_inj d.property d.location
  have hproperty : firstOf Usage.spot [(Usage.ofProperty d.property d.location).spot]
      (d.values.map (.ofPropertyValue d.property · d.location)) =
      firstOf Usage.spot [] (d.values.map (.ofPropertyValue d.property · d.location)) := by
    refine firstOf_append_seen (f := Usage.spot) (s := [(Usage.ofProperty d.property d.location).spot])
      (t := []) _ fun u hu hmem => ?_
    obtain ⟨v, -, rfl⟩ := List.mem_map.mp hu
    exact spot_ofProperty_ne d.property d.location v (List.mem_singleton.mp hmem)
  have hpass : ∀ u v : Usage, u.spot = v.spot → (!c.accepts u.key) = !c.accepts v.key := by
    intro u v h
    rw [show u.key = v.key from congrArg Prod.fst h]
  rw [issuesOf, reported, firstOf_filter _ hpass]
  rw [Declaration.usages, firstOf_cons_of_notMem _ List.not_mem_nil, hproperty, hvalues]
  rfl

theorem location_of_mem_declarationIssues {c : Checker} {d : Declaration} {i : Issue}
    (h : i ∈ c.declarationIssues d) : i.location = some d.location := by
  rw [← issuesOf_usages] at h
  obtain ⟨u, hu, -, rfl⟩ := mem_issuesOf h
  exact Declaration.location_of_mem_usages hu

/-- A declaration has an issue for each of its keys that does not pass. -/
theorem length_declarationIssues (c : Checker) (d : Declaration) :
    (c.declarationIssues d).length = c.breachCount d := by
  rw [← issuesOf_usages, issuesOf, List.length_map, breachCount,
    ← List.length_map (f := fun u : Usage => u.key)]
  refine ((List.perm_ext_iff_of_nodup ?_ (List.nodup_dedup _)).mpr fun key => ?_).length_eq
  · -- all usages of a declaration have one place, so their keys tell them apart
    have hspots : (c.reported d.usages).map Usage.spot =
        ((c.reported d.usages).map fun u => u.key).map fun key => (key, some d.location) := by
      rw [List.map_map]
      refine List.map_congr_left fun u hu => ?_
      rw [Usage.spot, Declaration.location_of_mem_usages (mem_reported hu).1]
      rfl
    have hnodup := firstOf_nodup Usage.spot [] (d.usages.filter fun u => !c.accepts u.key)
    rw [show firstOf _ _ _ = c.reported d.usages from rfl, hspots] at hnodup
    exact hnodup.of_map
  · rw [List.mem_dedup, List.mem_filter]
    constructor
    · intro h
      obtain ⟨u, hu, rfl⟩ := List.mem_map.mp h
      obtain ⟨hmem, hpass⟩ := mem_reported hu
      exact ⟨List.mem_map_of_mem hmem, by rw [hpass]; rfl⟩
    · rintro ⟨h, hpass⟩
      obtain ⟨u, hu, rfl⟩ := List.mem_map.mp h
      have hspot := List.mem_map_of_mem (f := Usage.spot)
        (List.mem_filter.mpr ⟨hu, hpass⟩ : u ∈ d.usages.filter fun u => !c.accepts u.key)
      obtain ⟨v, hv, hvu⟩ := List.mem_map.mp (mem_map_firstOf.mpr ⟨hspot, List.not_mem_nil⟩)
      exact List.mem_map.mpr ⟨v, hv, congrArg Prod.fst hvu⟩

/-- Declarations at different places are reported one by one. -/
theorem issuesOf_flatMap (c : Checker) {ds : List Declaration}
    (h : ds.Pairwise fun d e => d.location.Before e.location) :
    c.issuesOf (ds.flatMap Declaration.usages) = ds.flatMap c.declarationIssues := by
  have happart : ds.Pairwise fun d e =>
      ∀ u ∈ d.usages.filter (fun u => !c.accepts u.key),
      ∀ v ∈ e.usages.filter (fun u => !c.accepts u.key), u.spot ≠ v.spot := by
    refine h.imp fun {d e} hbefore u hu v hv hspot => hbefore.ne ?_
    have hlocation := congrArg Prod.snd hspot
    rw [Usage.spot, Usage.spot, Declaration.location_of_mem_usages (List.mem_of_mem_filter hu),
      Declaration.location_of_mem_usages (List.mem_of_mem_filter hv)] at hlocation
    exact Option.some.inj hlocation
  rw [issuesOf, reported, List.filter_flatMap, firstOf_flatMap happart, List.map_flatMap]
  exact congrArg (ds.flatMap ·) (funext fun d => c.issuesOf_usages d)

/-- The report on a style sheet goes through its declarations without errors in the order of the text:
each of them starts behind the one in front of it. It counts the property and all values of each; and
the issues of each, that of its property first, stand together, at its location, and are as many as it
has different keys that do not pass. -/
theorem auditCss_in_order (c : Checker) (code : String) :
    ∃ ds : List Declaration,
      (Css.declarationNodesIn code.toList).map
        (Css.declaration? code.toList (LineIndex.ofText code).locate) = ds.map some ∧
      (ds.Pairwise fun d e => d.location.Before e.location) ∧
      c.auditCss code =
        (if ds.any fun d => d.usages.any fun u => c.breaks u.key then none
        else some (.ofIssues .css c.threshold (ds.flatMap c.declarationIssues)
          (ds.map fun d => 1 + d.values.length).sum)) ∧
      (ds.flatMap c.declarationIssues).map (·.location) =
        ds.flatMap (fun d => List.replicate (c.breachCount d) (some d.location)) ∧
      ((ds.flatMap c.declarationIssues).Pairwise fun i j => i.location = j.location ∨
        ∃ a b, i.location = some a ∧ j.location = some b ∧ a.Before b) ∧
      (ds.flatMap c.declarationIssues).length = (ds.map c.breachCount).sum := by
  obtain ⟨hnodes, horder⟩ := Css.Snippet.declarations_inOrder code
  refine ⟨_, hnodes, horder, ?_, ?_, ?_, ?_⟩
  · rw [auditCss, judge_eq, Css.Snippet.usages, List.any_flatMap, reportOn, issuesOf_flatMap c horder]
    simp [Declaration.usages, List.length_flatMap, Nat.add_comm]
  · rw [List.map_flatMap]
    refine congrArg (List.flatMap · _) (funext fun d => ?_)
    rw [← length_declarationIssues, List.eq_replicate_iff]
    refine ⟨List.length_map _, fun l hl => ?_⟩
    obtain ⟨i, hi, rfl⟩ := List.mem_map.mp hl
    exact location_of_mem_declarationIssues hi
  · refine List.pairwise_flatMap.mpr ⟨fun d _ => ?_, horder.imp fun {d e} hbefore i hi j hj => ?_⟩
    · refine List.pairwise_of_forall_mem_list fun i hi j hj => .inl ?_
      rw [location_of_mem_declarationIssues hi, location_of_mem_declarationIssues hj]
    · exact .inr ⟨d.location, e.location, location_of_mem_declarationIssues hi,
        location_of_mem_declarationIssues hj, hbefore⟩
  · rw [List.length_flatMap]
    simp only [length_declarationIssues]

end Checker

end BaselineAudit
