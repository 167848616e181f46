import BaselineAudit.Parsing.Tree
import BaselineAudit.Proofs.Text.Location

/-!
# Texts of trees

A tree measures its text but does not hold it. `Tree.Covers` says which text that is, down to the
leaves, and `Node.LaidAll` says the same of the shown parts.

* `Place.Behind`: a place behind some text. Places of one text are told apart by their bytes
  (`Place.eq_of_bytes`).
* `Tree.covers_node`: a tree covers what its children cover, one behind the other.
* `Tree.nodes_laid`: the shown parts of a tree stand in its text, in order, and inside each other.
-/

namespace BaselineAudit.Parsing

/-! ## Measures -/

namespace Extent

theorem add_def (a b : Extent) :
    a + b = ⟨a.chars + b.chars, a.bytes + b.bytes, a.rows + b.rows⟩ := rfl

theorem sub_def (a b : Extent) :
    a - b = ⟨a.chars - b.chars, a.bytes - b.bytes, a.rows - b.rows⟩ := rfl

@[simp] theorem zero_add (a : Extent) : ({} : Extent) + a = a := by
  simp [add_def]

@[simp] theorem add_zero (a : Extent) : a + ({} : Extent) = a := rfl

theorem add_assoc (a b c : Extent) : a + b + c = a + (b + c) := by
  simp [add_def, Nat.add_assoc]

@[simp] theorem add_sub_cancel_left (a b : Extent) : a + b - a = b := by
  simp [add_def, sub_def]

@[simp] theorem bytes_add (a b : Extent) : (a + b).bytes = a.bytes + b.bytes := rfl

@[simp] theorem chars_add (a b : Extent) : (a + b).chars = a.chars + b.chars := rfl

theorem foldl_ofChar (e : Extent) (cs : List Char) :
    cs.foldl (fun e c => e + ofChar c) e = e + ofChars cs := by
  induction cs generalizing e with
  | nil => rfl
  | cons c cs ih =>
    rw [ofChars, List.foldl_cons, List.foldl_cons, ih, ih, zero_add, add_assoc]

@[simp] theorem ofChars_nil : ofChars [] = {} := rfl

theorem ofChars_cons (c : Char) (cs : List Char) : ofChars (c :: cs) = ofChar c + ofChars cs := by
  rw [ofChars, List.foldl_cons, foldl_ofChar, zero_add]

@[simp] theorem ofChars_append (cs ds : List Char) : ofChars (cs ++ ds) = ofChars cs + ofChars ds := by
  rw [ofChars, List.foldl_append, foldl_ofChar]
  rfl

@[simp] theorem chars_ofChars (cs : List Char) : (ofChars cs).chars = cs.length := by
  induction cs with
  | nil => rfl
  | cons c cs ih =>
    rw [ofChars_cons, chars_add, ih, List.length_cons, Nat.add_comm]
    rfl

@[simp] theorem bytes_ofChars (cs : List Char) : (ofChars cs).bytes = byteCount cs := by
  induction cs with
  | nil => rfl
  | cons c cs ih =>
    rw [ofChars_cons, bytes_add, ih, byteCount_cons]
    rfl

end Extent

/-! ## Places -/

namespace Place

/-- The place `q` is behind the text `w`, which starts at `p`. -/
def Behind (p : Place) (w : List Char) (q : Place) : Prop :=
  p.rest = w ++ q.rest ∧ q.passed = p.passed + .ofChars w

/-- The place `q` is behind `p`, or the same. -/
def Reaches (p q : Place) : Prop := ∃ w, p.Behind w q

/-- The place is one of the text. -/
def Of (cs : List Char) (p : Place) : Prop := (start cs).Reaches p

theorem Behind.refl (p : Place) : p.Behind [] p := ⟨rfl, rfl⟩

theorem Behind.trans {p q r : Place} {v w : List Char} (h : p.Behind v q) (h' : q.Behind w r) :
    p.Behind (v ++ w) r := by
  refine ⟨?_, ?_⟩
  · rw [h.1, h'.1, List.append_assoc]
  · rw [h'.2, h.2, Extent.ofChars_append, Extent.add_assoc]

theorem Behind.bytes_eq {p q : Place} {w : List Char} (h : p.Behind w q) :
    q.bytes = p.bytes + byteCount w := by
  rw [bytes, h.2, Extent.bytes_add, Extent.bytes_ofChars]
  rfl

theorem behind_cons (passed : Extent) (c : Char) (cs : List Char) :
    (⟨passed, c :: cs⟩ : Place).Behind [c] ⟨passed + .ofChar c, cs⟩ := by
  refine ⟨rfl, ?_⟩
  rw [Extent.ofChars_cons]
  rfl

theorem Reaches.refl (p : Place) : p.Reaches p := ⟨[], Behind.refl p⟩

theorem Reaches.trans {p q r : Place} (h : p.Reaches q) (h' : q.Reaches r) : p.Reaches r := by
  obtain ⟨v, hv⟩ := h
  obtain ⟨w, hw⟩ := h'
  exact ⟨v ++ w, hv.trans hw⟩

theorem Reaches.bytes_le {p q : Place} (h : p.Reaches q) : p.bytes ≤ q.bytes := by
  obtain ⟨w, hw⟩ := h
  rw [hw.bytes_eq]
  exact Nat.le_add_right _ _

theorem reaches_cons (passed : Extent) (c : Char) (cs : List Char) :
    (⟨passed, c :: cs⟩ : Place).Reaches ⟨passed + .ofChar c, cs⟩ :=
  ⟨[c], behind_cons passed c cs⟩

theorem reaches_next (p : Place) : p.Reaches p.next := by
  obtain ⟨passed, rest⟩ := p
  cases rest with
  | nil => exact ⟨[], Behind.refl _⟩
  | cons c cs => exact ⟨[c], behind_cons passed c cs⟩

theorem reaches_skipWhile (isSkipped : Char → Bool) (p : Place) :
    p.Reaches (p.skipWhile isSkipped) :=
  ⟨p.rest.takeWhile isSkipped, List.takeWhile_append_dropWhile.symm, rfl⟩

/-- A character of the class is passed. -/
theorem bytes_lt_skipWhile {isSkipped : Char → Bool} {p : Place}
    (h : p.head?.any isSkipped = true) : p.bytes < (p.skipWhile isSkipped).bytes := by
  obtain ⟨passed, rest⟩ := p
  cases rest with
  | nil => exact absurd h (by simp [head?])
  | cons c cs =>
    have hc : isSkipped c = true := by simpa [head?] using h
    have hpos := c.utf8Size_pos
    simp only [bytes, skipWhile, List.takeWhile_cons_of_pos hc, Extent.bytes_add,
      Extent.bytes_ofChars, byteCount_cons]
    omega

/-- Where one comes to does not depend on anything but the text. -/
theorem Behind.unique {p q r : Place} {w : List Char} (h : p.Behind w q) (h' : p.Behind w r) :
    q = r := by
  obtain ⟨hq, hq'⟩ := h
  obtain ⟨hr, hr'⟩ := h'
  cases q
  cases r
  simp_all

/-- Of two places behind one, the one with more bytes in front of it is behind the other. -/
theorem Behind.split {p q r : Place} {v w : List Char} (hq : p.Behind v q) (hr : p.Behind w r)
    (hb : q.bytes ≤ r.bytes) : ∃ u, w = v ++ u ∧ q.Behind u r := by
  have hc : byteCount v ≤ byteCount w := by
    have := hq.bytes_eq
    have := hr.bytes_eq
    omega
  obtain ⟨u, hu⟩ : ∃ u, w = v ++ u := by
    rcases List.append_eq_append_iff.mp (hq.1.symm.trans hr.1) with ⟨u, hu, -⟩ | ⟨u, hu, -⟩
    · exact ⟨u, hu⟩
    · have h0 : byteCount u = 0 := by
        rw [hu, byteCount_append] at hc
        omega
      have hn : u = [] := by
        by_contra hne
        have := byteCount_pos hne
        omega
      exact ⟨[], by rw [hu, hn]; simp⟩
  refine ⟨u, hu, ?_, ?_⟩
  · have h := hq.1.symm.trans hr.1
    rw [hu, List.append_assoc] at h
    exact List.append_cancel_left h
  · rw [hr.2, hq.2, hu, Extent.ofChars_append, Extent.add_assoc]

/-- The place between two texts. -/
theorem Behind.between {p q : Place} {v w : List Char} (h : p.Behind (v ++ w) q) :
    ∃ m, p.Behind v m ∧ m.Behind w q := by
  refine ⟨⟨p.passed + .ofChars v, w ++ q.rest⟩, ⟨?_, rfl⟩, rfl, ?_⟩
  · rw [h.1, List.append_assoc]
  · rw [h.2, Extent.ofChars_append, Extent.add_assoc]

theorem of_start (cs : List Char) : Of cs (start cs) := Reaches.refl _

theorem Of.behind {cs : List Char} {p q : Place} {w : List Char} (hp : Of cs p)
    (h : p.Behind w q) : Of cs q :=
  Reaches.trans hp ⟨w, h⟩

/-- The bytes in front of it tell a place of a text. -/
theorem Of.eq_of_bytes {cs : List Char} {p q : Place} (hp : Of cs p) (hq : Of cs q)
    (h : p.bytes = q.bytes) : p = q := by
  obtain ⟨v, hv⟩ := hp
  obtain ⟨w, hw⟩ := hq
  have hl : byteCount v = byteCount w := by
    have := hv.bytes_eq
    have := hw.bytes_eq
    omega
  obtain ⟨rfl, -⟩ := append_inj_of_byteCount (hv.1.symm.trans hw.1) hl
  exact hv.unique hw

end Place

/-! ## Trees -/

namespace Tree

variable {σ : Type}

mutual

/-- The text of a tree is `w`, with the blanks in front of it. -/
def Covers : Tree σ → List Char → Prop
  | ⟨_, _, padding, size, children, _, _, _, _, _, _, _, _, _, _⟩, w =>
    (∃ blanks text, w = blanks ++ text ∧ padding = .ofChars blanks ∧ size = .ofChars text) ∧
      (children = [] ∨ CoversAll children w)

/-- The texts of trees, one behind the other, are `w`. -/
def CoversAll : List (Tree σ) → List Char → Prop
  | [], w => w = []
  | t :: rest, w => ∃ u v, w = u ++ v ∧ Covers t u ∧ CoversAll rest v

end

theorem covers_iff {t : Tree σ} {w : List Char} :
    t.Covers w ↔
      (∃ blanks text, w = blanks ++ text ∧ t.padding = .ofChars blanks ∧ t.size = .ofChars text) ∧
        (t.children = [] ∨ CoversAll t.children w) := by
  cases t
  rw [Covers]

theorem coversAll_nil {w : List Char} : CoversAll ([] : List (Tree σ)) w ↔ w = [] := by
  rw [CoversAll]

theorem coversAll_cons {t : Tree σ} {rest : List (Tree σ)} {w : List Char} :
    CoversAll (t :: rest) w ↔ ∃ u v, w = u ++ v ∧ t.Covers u ∧ CoversAll rest v := by
  rw [CoversAll]

theorem coversAll_append {ts us : List (Tree σ)} {v w : List Char} (ht : CoversAll ts v)
    (hu : CoversAll us w) : CoversAll (ts ++ us) (v ++ w) := by
  induction ts generalizing v with
  | nil =>
    rw [coversAll_nil.mp ht]
    exact hu
  | cons t ts ih =>
    obtain ⟨a, b, rfl, ha, hb⟩ := coversAll_cons.mp ht
    rw [List.append_assoc]
    exact coversAll_cons.mpr ⟨a, b ++ w, rfl, ha, ih hb⟩

theorem coversAll_append_inv {ts us : List (Tree σ)} {w : List Char}
    (h : CoversAll (ts ++ us) w) : ∃ u v, w = u ++ v ∧ CoversAll ts u ∧ CoversAll us v := by
  induction ts generalizing w with
  | nil => exact ⟨[], w, rfl, coversAll_nil.mpr rfl, h⟩
  | cons t ts ih =>
    obtain ⟨a, b, rfl, ha, hb⟩ := coversAll_cons.mp h
    obtain ⟨u, v, rfl, hu, hv⟩ := ih hb
    exact ⟨a ++ u, v, by rw [List.append_assoc], coversAll_cons.mpr ⟨a, u, rfl, ha, hu⟩, hv⟩

/-- The text of a tree stands at a place. -/
def Fits (t : Tree σ) (p : Place) : Prop := ∃ w q, t.Covers w ∧ p.Behind w q

/-- Only the measures and the children of a tree matter for its text. -/
theorem Covers.congr {t t' : Tree σ} {w : List Char} (h : t.Covers w)
    (hp : t'.padding = t.padding) (hs : t'.size = t.size) (hc : t'.children = t.children) :
    t'.Covers w := by
  rw [covers_iff] at h ⊢
  rwa [hp, hs, hc]

theorem Covers.total_eq {t : Tree σ} {w : List Char} (h : t.Covers w) : t.total = .ofChars w := by
  obtain ⟨⟨blanks, text, rfl, hp, hs⟩, -⟩ := covers_iff.mp h
  rw [total, hp, hs, Extent.ofChars_append]

theorem covers_leaf (g : Productions) (kind : Kind) (blanks text : List Char) (state : Nat) :
    (leaf g kind (.ofChars blanks) (.ofChars text) state : Tree σ).Covers (blanks ++ text) :=
  covers_iff.mpr ⟨⟨blanks, text, rfl, rfl, rfl⟩, .inl rfl⟩

/-! ### Trees with children -/

section Node

variable (g : Productions) (inError : Bool) (t : Tree σ)

theorem addChildren_fields (place : Nat) (children : List (Tree σ)) :
    let t' := t.addChildren g inError place children
    t'.kind = t.kind ∧ t'.label = t.label ∧ t'.padding = t.padding ∧ t'.size = t.size ∧
      t'.children = t.children ∧ t'.aliases = t.aliases ∧ t'.extra = t.extra ∧
      t'.missing = t.missing := by
  induction children generalizing t place with
  | nil => exact ⟨rfl, rfl, rfl, rfl, rfl, rfl, rfl, rfl⟩
  | cons c rest ih => exact ih _ _

variable (kind : Kind) (children : List (Tree σ)) (aliases : List (Option Label))

theorem node_fields :
    let t := node g kind children aliases
    t.kind = kind ∧ t.label = labelOf g kind ∧
      t.padding = (children.head?.map (·.padding)).getD {} ∧ t.size = sizeOf children ∧
      t.children = children ∧ t.aliases = aliases ∧ t.extra = false ∧ t.missing = false := by
  unfold node
  simp only
  split
  · exact addChildren_fields ..
  · exact addChildren_fields ..

@[simp] theorem node_kind : (node g kind children aliases).kind = kind := (node_fields ..).1

@[simp] theorem node_label : (node g kind children aliases).label = labelOf g kind :=
  (node_fields ..).2.1

@[simp] theorem node_padding :
    (node g kind children aliases).padding = (children.head?.map (·.padding)).getD {} :=
  (node_fields ..).2.2.1

@[simp] theorem node_size : (node g kind children aliases).size = sizeOf children :=
  (node_fields ..).2.2.2.1

@[simp] theorem node_children : (node g kind children aliases).children = children :=
  (node_fields ..).2.2.2.2.1

@[simp] theorem node_aliases : (node g kind children aliases).aliases = aliases :=
  (node_fields ..).2.2.2.2.2.1

@[simp] theorem node_extra : (node g kind children aliases).extra = false :=
  (node_fields ..).2.2.2.2.2.2.1

@[simp] theorem node_missing : (node g kind children aliases).missing = false :=
  (node_fields ..).2.2.2.2.2.2.2

end Node

theorem foldl_total {ts : List (Tree σ)} {w : List Char} (h : CoversAll ts w) (e : Extent) :
    ts.foldl (fun e t => e + t.total) e = e + .ofChars w := by
  induction ts generalizing e w with
  | nil => rw [coversAll_nil.mp h]; rfl
  | cons t ts ih =>
    obtain ⟨u, v, rfl, hu, hv⟩ := coversAll_cons.mp h
    rw [List.foldl_cons, ih hv, hu.total_eq, Extent.ofChars_append, Extent.add_assoc]

/-- A tree covers what its children cover, one behind the other. -/
theorem covers_node (g : Productions) (kind : Kind) {children : List (Tree σ)} {w : List Char}
    (aliases : List (Option Label)) (h : CoversAll children w) :
    (node g kind children aliases).Covers w := by
  rw [covers_iff, node_padding, node_size, node_children]
  refine ⟨?_, .inr h⟩
  cases children with
  | nil => exact ⟨[], [], coversAll_nil.mp h, rfl, rfl⟩
  | cons c rest =>
    obtain ⟨u, v, rfl, hu, hv⟩ := coversAll_cons.mp h
    obtain ⟨⟨blanks, text, rfl, hp, hs⟩, -⟩ := covers_iff.mp hu
    refine ⟨blanks, text ++ v, List.append_assoc .., hp, ?_⟩
    rw [sizeOf, foldl_total hv, hs, Extent.ofChars_append]

end Tree

/-! ## Shown parts -/

namespace Node

mutual

/-- A part stands at the end of the text `w`, which has `e` in front of it. -/
def Laid : Extent → List Char → Node → Prop
  | e, w, ⟨_, start, size, _, children⟩ =>
    (∃ front text, w = front ++ text ∧ start = e + .ofChars front ∧ size = .ofChars text) ∧
      LaidAll e w children

/-- Parts stand one behind the other in the text `w`, which has `e` in front of it. -/
def LaidAll : Extent → List Char → List Node → Prop
  | _, _, [] => True
  | e, w, n :: rest => ∃ u v, w = u ++ v ∧ Laid e u n ∧ LaidAll (e + .ofChars u) v rest

end

theorem laidAll_nil {e : Extent} {w : List Char} : LaidAll e w [] := by
  rw [LaidAll]
  trivial

theorem laidAll_cons {e : Extent} {w : List Char} {n : Node} {rest : List Node} :
    LaidAll e w (n :: rest) ↔
      ∃ u v, w = u ++ v ∧ Laid e u n ∧ LaidAll (e + .ofChars u) v rest := by
  rw [LaidAll]

theorem laid_iff {e : Extent} {w : List Char} {n : Node} :
    Laid e w n ↔
      (∃ front text, w = front ++ text ∧ n.start = e + .ofChars front ∧ n.size = .ofChars text) ∧
        LaidAll e w n.children := by
  cases n
  rw [Laid]

mutual

/-- There may be more text in front. -/
theorem Laid.extend {e : Extent} (v : List Char) :
    (n : Node) → {w : List Char} → Laid (e + .ofChars v) w n → Laid e (v ++ w) n
  | ⟨label, start, size, hasError, children⟩, w, h => by
    obtain ⟨⟨front, text, rfl, hs, hz⟩, hc⟩ := laid_iff.mp h
    refine laid_iff.mpr ⟨⟨v ++ front, text, (List.append_assoc ..).symm, ?_, hz⟩, ?_⟩
    · rw [hs, Extent.ofChars_append, Extent.add_assoc]
    · exact LaidAll.extend v children hc

theorem LaidAll.extend {e : Extent} (v : List Char) :
    (ns : List Node) → {w : List Char} → LaidAll (e + .ofChars v) w ns → LaidAll e (v ++ w) ns
  | [], _, _ => laidAll_nil
  | n :: rest, w, h => by
    obtain ⟨a, b, rfl, ha, hb⟩ := laidAll_cons.mp h
    refine laidAll_cons.mpr ⟨v ++ a, b, (List.append_assoc ..).symm, Laid.extend v n ha, ?_⟩
    rwa [Extent.ofChars_append, ← Extent.add_assoc]

end

end Node

namespace Tree

variable {σ : Type}

open Node

mutual

theorem nodesOf_laid : (t : Tree σ) → {e : Extent} → {v w : List Char} → {shown : Option Label} →
    {after : List Node} → t.Covers w → LaidAll (e + .ofChars w) v after →
      LaidAll e (w ++ v) (nodesOf e shown after t)
  | ⟨kind, label, padding, size, children, aliases, extra, missing, cost, sc, sd, m, lm, cm, fs⟩,
      e, v, w, shown, after, ht, ha => by
    obtain ⟨⟨blanks, text, hw, hp, hs⟩, hc⟩ := covers_iff.mp ht
    -- the shown parts of the children, in front of some others
    have inner : ∀ {v after}, LaidAll (e + .ofChars w) v after →
        LaidAll e (w ++ v) (nodesOfAll e aliases after children) := by
      intro v after ha
      rcases hc with hc | hc
      · obtain rfl : children = [] := hc
        rw [nodesOfAll]
        exact ha.extend w
      · exact nodesOfAll_laid children hc ha
    rw [nodesOf]
    split
    · refine laidAll_cons.mpr ⟨w, v, rfl, laid_iff.mpr ⟨⟨blanks, text, hw, ?_, hs⟩, ?_⟩, ha⟩
      · show e + padding = _
        rw [show padding = _ from hp]
      · have h : LaidAll e (w ++ []) (nodesOfAll e aliases [] children) := inner laidAll_nil
        rwa [List.append_nil] at h
    · exact inner ha

theorem nodesOfAll_laid : (ts : List (Tree σ)) → {e : Extent} → {v w : List Char} →
    {aliases : List (Option Label)} → {after : List Node} → CoversAll ts w →
      LaidAll (e + .ofChars w) v after → LaidAll e (w ++ v) (nodesOfAll e aliases after ts)
  | [], e, v, w, aliases, after, h, ha => by
    rw [coversAll_nil.mp h] at ha ⊢
    rw [nodesOfAll]
    exact ha
  | t :: rest, e, v, w, aliases, after, h, ha => by
    obtain ⟨a, b, rfl, hta, hb⟩ := coversAll_cons.mp h
    rw [nodesOfAll, List.append_assoc]
    rw [Extent.ofChars_append, ← Extent.add_assoc] at ha
    refine nodesOf_laid t hta ?_
    rw [hta.total_eq]
    exact nodesOfAll_laid rest hb ha

end

/-- The shown parts of a tree stand in its text. -/
theorem nodes_laid {t : Tree σ} {w : List Char} (h : t.Covers w) : LaidAll {} w t.nodes := by
  have h : LaidAll {} (w ++ []) (nodesOf {} none [] t) := nodesOf_laid t h laidAll_nil
  rwa [List.append_nil] at h

/-- A tree that is shown is one part. -/
theorem nodes_of_label {t : Tree σ} {l : Label} (h : t.label = some l) :
    ∃ n : Node, t.nodes = [n] ∧ n.label = l ∧ n.children = nodesOfAll {} t.aliases [] t.children := by
  cases t
  obtain rfl := h
  rw [nodes, nodesOf]
  exact ⟨_, rfl, rfl, rfl⟩

end Tree

end BaselineAudit.Parsing
