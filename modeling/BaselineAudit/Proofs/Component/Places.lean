import BaselineAudit.Proofs.Audit.Acceptance
import BaselineAudit.Proofs.Component.Template
import BaselineAudit.Proofs.Css.Snippets
import BaselineAudit.Proofs.Script.Statements

/-!
# Where the issues of a component stand

The styles of a component are read off texts that are copied, joined or generated. The locations of
their issues are places in the source as long as text and origin are in step. They are not where a
string is written with escapes, and where a key of a style object takes several lines: the text that
is read has other lines than the source.

* `Component.isRestated`: the places for styles whose text has other lines than the source, by their
  form.
* `Component.stylePlace?_placed`: what is read off any other place for styles is in step.
* `Checker.auditComponent_isIn`: every location in a report on a component is one of the source, or
  comes from a place whose text is restated.
-/

namespace BaselineAudit

/-! ## Snippets -/

namespace Css

theorem Form.byteCount_closing_le (f : Form) : byteCount f.closing.toList ≤ 2 := by
  cases f <;> decide

namespace Snippet

/-- Wherever a declaration can start in the text of a snippet, the place in the document exists. -/
def Placed (cs : List Char) (s : Snippet) : Prop :=
  ∀ o, o + 2 ≤ byteCount s.closed → (s.origin.map (Location.move ⟨1, 1⟩ s.text.toList o)).IsIn cs

theorem le_of_closed {s : Snippet} {o : Nat} (h : o + 2 ≤ byteCount s.closed) :
    o ≤ byteCount s.text.toList := by
  have hclosing := s.form.byteCount_closing_le
  rw [closed, byteCount_append] at h
  omega

/-- What a snippet in step uses has places in the document. -/
theorem usages_isIn {cs : List Char} {s : Snippet} (hs : s.Placed cs) :
    ∀ u ∈ s.usages, ∀ l, u.location = some l → l.IsIn cs := by
  intro u hu l hl
  obtain ⟨d, hd, hu⟩ := List.mem_flatMap.mp hu
  obtain ⟨o, ho, hloc⟩ := declarations_startsBefore s d hd
  rw [source_toList, byteCount_append, s.form.byteCount_opening] at ho
  -- an offset in the opening counts as the start of the text; a form with an opening has a closing
  have hin : o - s.form.opening.utf8ByteSize + 2 ≤ byteCount s.closed := by
    rcases s with ⟨text, form, origin⟩
    cases form with
    | stylesheet =>
      have hopening : Form.stylesheet.opening.utf8ByteSize = 0 := rfl
      simp only [hopening] at ho ⊢
      omega
    | declarations =>
      have hclosing : byteCount Form.declarations.closing.toList = 2 := rfl
      simp only [closed, byteCount_append, hclosing] at ho ⊢
      omega
  have hlocation : l = d.location := by
    rw [Declaration.location_of_mem_usages hu] at hl
    exact (Option.some.inj hl).symm
  rw [hlocation, hloc, locate_eq, closed, Location.move_append_left _ _ _ (le_of_closed hin)]
  exact hs _ hin

end Snippet

end Css

namespace Component

open Script Text

/-! ## Constants -/

/-- The values of constants stand in a text. -/
def Bindings.Sited (cs : List Char) (b : Bindings) : Prop := ∀ p ∈ b, p.2.Sited cs

section

variable {cs : List Char}

theorem statementsOf_sited {t : Tree} (h : t.Sited cs) : ∀ s ∈ statementsOf t, s.Sited cs := by
  have hbody : ∀ {parts statements : List Tree} {span : Span}, Tree.SitedAll cs parts →
      parts.getLast? = some (.node .body span statements) → ∀ s ∈ statements, s.Sited cs := by
    intro parts statements span hparts hlast
    have hmem := Tree.sitedAll_iff.mp hparts _ (List.mem_of_getLast? hlast)
    exact Tree.sitedAll_iff.mp hmem.children
  intro s hs
  unfold statementsOf at hs
  split at hs
  · split at hs
    next hlast => exact hbody h.children hlast s hs
    next => exact absurd hs List.not_mem_nil
  · split at hs
    next hlast => exact hbody h.children hlast s hs
    next => exact absurd hs List.not_mem_nil
  · exact absurd hs List.not_mem_nil

theorem constantOf_sited {value : Tree} (hvalue : value.Sited cs) (parts : List Tree) :
    (constantOf value parts).Sited cs := by
  intro p hp
  unfold constantOf at hp
  split at hp
  · rw [List.mem_singleton.mp hp]
    exact hvalue
  · exact absurd hp List.not_mem_nil

section

variable {inside : Tree → Bindings} (hinside : ∀ {t : Tree}, t.Sited cs → (inside t).Sited cs)

include hinside

theorem constantsOfVariable_sited {isConst : Bool} {t : Tree} (h : t.Sited cs) :
    (constantsOfVariable inside isConst t).Sited cs := by
  unfold constantsOfVariable
  split
  next parts =>
    split
    next value hlast =>
      have hvalue := Tree.sitedAll_iff.mp h.children value (List.mem_of_getLast? hlast)
      intro p hp
      rcases List.mem_append.mp hp with hp | hp
      · split at hp
        · exact constantOf_sited hvalue parts p hp
        · exact absurd hp List.not_mem_nil
      · exact hinside hvalue p hp
    next => exact fun p hp => absurd hp List.not_mem_nil
  next => exact fun p hp => absurd hp List.not_mem_nil

theorem constantsOfDeclaration_sited {t : Tree} (h : t.Sited cs) :
    (constantsOfDeclaration inside t).Sited cs := by
  unfold constantsOfDeclaration
  split
  next =>
    intro p hp
    obtain ⟨v, hv, hp⟩ := List.mem_flatMap.mp hp
    exact constantsOfVariable_sited hinside (Tree.sitedAll_iff.mp h.children v hv) p hp
  next => exact hinside h
  next => exact fun p hp => absurd hp List.not_mem_nil

theorem constantsOfStatement_sited {t : Tree} (h : t.Sited cs) :
    (constantsOfStatement inside t).Sited cs := by
  unfold constantsOfStatement
  split
  next => exact constantsOfDeclaration_sited hinside (Tree.sitedAll_cons.mp h.children).1
  next => exact hinside (Tree.sitedAll_cons.mp h.children).1
  next => exact constantsOfDeclaration_sited hinside h

end

/-- The values of the constants of a script stand where it stands. -/
theorem Bindings.ofScript_sited {t : Tree} (h : t.Sited cs) : (Bindings.ofScript t).Sited cs := by
  have hfunction : ∀ {f : Tree}, f.Sited cs → (constantsOfFunction f).Sited cs := by
    intro f hf p hp
    obtain ⟨s, hs, hp⟩ := List.mem_flatMap.mp hp
    exact constantsOfStatement_sited (fun _ _ hp => absurd hp List.not_mem_nil)
      (statementsOf_sited hf s hs) p hp
  intro p hp
  obtain ⟨s, hs, hp⟩ := List.mem_flatMap.mp hp
  exact constantsOfStatement_sited hfunction (Tree.sitedAll_iff.mp h.children s hs) p hp

theorem Bindings.Sited.get? {b : Bindings} (h : b.Sited cs) {name : String} {t : Tree}
    (ht : b.get? name = some t) : t.Sited cs := by
  induction b with
  | nil => exact absurd ht (by simp [Bindings.get?])
  | cons p b ih =>
    rw [Bindings.get?, List.lookup_cons] at ht
    split at ht
    · exact Option.some.inj ht ▸ h p List.mem_cons_self
    · exact ih (fun q hq => h q (List.mem_cons_of_mem _ hq)) ht

/-- The items of an object stand in a text, wherever it is declared. -/
theorem objectWithin_sited {b : Bindings} (hb : b.Sited cs) {depth : Nat} {t : Tree}
    {items : List Tree} (ht : t.Sited cs) (h : objectWithin b depth t = some items) :
    Tree.SitedAll cs items := by
  induction depth generalizing t with
  | zero => exact absurd h (by simp [objectWithin])
  | succ depth ih =>
    unfold objectWithin at h
    split at h
    · exact Option.some.inj h ▸ ht.children
    · exact ih (Tree.sitedAll_cons.mp ht.children).1 h
    · exact ih (Tree.sitedAll_cons.mp ht.children).1 h
    · obtain ⟨value, hvalue, h⟩ := Option.bind_eq_some_iff.mp h
      exact ih (hb.get? hvalue) h
    · exact absurd h (by simp)

end

/-! ## Lines of style objects -/

theorem newlines_comment (text : String) : newlines (comment text) = newlines text := by
  have hends : ∀ cs : List Char, (withoutEnds cs).count '\n' = cs.count '\n' := by
    intro cs
    fun_induction withoutEnds cs with
    | case1 cs ih => simp [ih]
    | case2 c cs _ ih => simp [List.count_cons, ih]
    | case3 => rfl
  rw [comment, newlines_append, newlines_append, show newlines "/* " = 0 by decide,
    show newlines " */" = 0 by decide]
  simp [newlines, hends]

/-- A key of a style object takes several lines. -/
def isSplitKey : Tree → Bool
  | .node (.property (some key) _) _ _ => newlines (propertyName key) != 0
  | _ => false

/-- The line for an item is one line, unless its key takes several. -/
theorem newlines_itemLine (b : Bindings) {t : Tree} (h : isSplitKey t = false) :
    newlines (itemLine b t) = 0 := by
  unfold itemLine
  split
  next key _ _ parts =>
    have hkey : newlines (propertyName key) = 0 := by simpa [isSplitKey] using h
    split
    next value _ =>
      unfold styleLine
      split
      · simp only [newlines_append, hkey, newlines_singleLine]
        decide
      · rw [newlines_comment, hkey]
    next => rw [newlines_comment, hkey]
  next => rw [newlines_comment]; decide
  next => rw [newlines_comment]; decide

/-! ## Passages -/

/-- What is read off a passage as styles has places in a text. -/
def Passage.Placed (cs : List Char) (form : Css.Form) (p : Passage) : Prop :=
  Css.Snippet.Placed cs ⟨p.text, form, p.origin⟩

section

variable {cs : List Char}

/-- A text that is in step with one in the source has places there. -/
theorem placed_of_standsAt {start : Nat} {w : List Char} (hw : StandsAt cs start w) {text : String}
    (h : Aligned text.toList w) (form : Css.Form) :
    Passage.Placed cs form ⟨text, .verbatim (Location.move ⟨1, 1⟩ cs start)⟩ := by
  intro o ho
  have hle : o ≤ byteCount text.toList := Css.Snippet.le_of_closed ho
  show Location.IsIn cs ((Origin.verbatim _).map (Location.move ⟨1, 1⟩ text.toList o))
  rw [h.map_move hw hle]
  have := hw.le
  have := h.size
  exact Location.isIn_move (by omega)

/-- A text that comes from one place as a whole has this place. -/
theorem placed_gathered (text : String) {place : Location} (h : place.IsIn cs) :
    (Passage.gathered text place).Placed cs .stylesheet := by
  intro o ho
  have hlt : o < byteCount text.toList := by
    simp only [Passage.gathered, Css.Snippet.closed, Css.Form.closing, byteCount_append] at ho
    simp at ho
    omega
  have hline := line_move_le_lineCount text hlt
  show Location.IsIn cs ((Origin.lines _).map (Location.move ⟨1, 1⟩ text.toList o))
  have hfound : (List.replicate (max (lineCount text) 1) place)[
      (Location.move ⟨1, 1⟩ text.toList o).line - 1]? = some place := by
    rw [List.getElem?_replicate, if_pos (by omega)]
  rw [Origin.map, hfound]
  exact h

end

/-! ## Places for styles -/

namespace Context

/-- A context is that of a component with a text. -/
structure Reads (cs : List Char) (x : Context) : Prop where
  chars : x.chars = cs
  locate : ∀ o, x.locate o = Location.move ⟨1, 1⟩ cs o
  bindings : x.bindings.Sited cs

section

variable (x : Context)

/-- An expression is no string, or one that stands in the source as it is, right behind its
quote. -/
def isWritten (t : Tree) : Bool :=
  match t.shape with
  | .string value => (dropBytes? (t.span.start + 1) x.chars).any (value.toList.isPrefixOf ·)
  | _ => true

/-- An expression stands for an object with a key that takes several lines. -/
def hasSplitKey (t : Tree) : Bool := (object? x.bindings t).any (·.any isSplitKey)

/-- A child of a style element is a string that is written with escapes. -/
def isRestatedChild : Tree → Bool
  | .node .container _ [e] => !x.isWritten e
  | _ => false

/-- The text of a style element is that of a string that is written with escapes. -/
def isRestatedContent (children : List Tree) : Bool :=
  match children.findSome? innerMarkup? with
  | some e => !x.isWritten e
  | none => (children.filterMap x.childPassage?).length = 1 && children.any x.isRestatedChild

/-- The styles of an attribute are those of an object with a key that takes several lines, or of a
string that is written with escapes. -/
def isRestatedValue (name : String) : List Tree → Bool
  | [.node .container _ [e]] => x.hasSplitKey e || (name = "css" && !x.isWritten e)
  | [e] => name = "css" && !x.isWritten e
  | _ => false

end

variable {cs : List Char} {x : Context} (hx : x.Reads cs)

include hx

theorem Reads.isIn {t : Tree} (ht : t.Sited cs) : (x.locate t.span.start).IsIn cs := by
  rw [hx.locate]
  exact Location.isIn_move ht.start_le

theorem string_placed {t : Tree} {value : String} (hshape : t.shape = .string value)
    (hwritten : x.isWritten t = true) (form : Css.Form) {p : Passage} (h : x.passage? t = some p) :
    p.Placed cs form := by
  simp only [passage?, hshape] at h
  simp only [isWritten, hshape] at hwritten
  obtain ⟨rest, hrest, hstarts⟩ := (Option.any_eq_true _ _).mp hwritten
  obtain ⟨back, rfl⟩ := List.isPrefixOf_iff_prefix.mp hstarts
  obtain ⟨front, hfront, hsize⟩ := dropBytes?_eq hrest
  have hstands : StandsAt cs (t.span.start + 1) value.toList :=
    ⟨front, back, by rw [← hx.chars, hfront, List.append_assoc], hsize⟩
  rw [← Option.some.inj h, hx.locate]
  exact placed_of_standsAt hstands (.refl _) form

theorem template_placed {t : Tree} {pieces : List Piece} (hshape : t.shape = .template pieces)
    (form : Css.Form) {p : Passage} (h : x.passage? t = some p) : p.Placed cs form := by
  simp only [passage?, hshape] at h
  obtain ⟨text, htext, h⟩ := Option.bind_eq_some_iff.mp h
  obtain ⟨v, hv, rfl⟩ := Option.map_eq_some_iff.mp htext
  obtain ⟨w, hw, haligned⟩ := replaced_aligned hv
  rw [← Option.some.inj h, hx.locate]
  rw [hx.chars] at hw
  exact placed_of_standsAt hw (by rwa [String.toList_ofList]) form

/-- The text of an expression in a style sheet has places in the source. -/
theorem passage?_placed {t : Tree} (ht : t.Sited cs) (hwritten : x.isWritten t = true) {p : Passage}
    (h : x.passage? t = some p) : p.Placed cs .stylesheet := by
  cases hshape : t.shape with
  | string value => exact string_placed hx hshape hwritten _ h
  | template pieces => exact template_placed hx hshape _ h
  | _ =>
    simp only [passage?, hshape] at h
    obtain ⟨text, -, h⟩ := Option.bind_eq_some_iff.mp h
    rw [← Option.some.inj h]
    exact placed_gathered text (hx.isIn ht)

/-- Each line of a style object has the place of its item. -/
theorem objectPassage_placed {items : List Tree} (hitems : Tree.SitedAll cs items)
    (hkeys : ∀ t ∈ items, isSplitKey t = false) :
    (x.objectPassage items).Placed cs .declarations := by
  intro o ho
  have hline := Location.line_move_le ⟨1, 1⟩ (x.objectPassage items).text.toList o
  have hcount : (x.objectPassage items).text.toList.count '\n' = items.length - 1 := by
    have hlines : ∀ s ∈ items.map (itemLine x.bindings), newlines s = 0 := by
      intro s hs
      obtain ⟨t, ht, rfl⟩ := List.mem_map.mp hs
      exact newlines_itemLine _ (hkeys t ht)
    have := newlines_intercalate "\n" hlines
    rwa [show newlines "\n" = 1 by decide, Nat.mul_one, List.length_map] at this
  rw [hcount] at hline
  have hpos := (Location.le_move ⟨1, 1⟩ (x.objectPassage items).text.toList o).1
  show Location.IsIn cs ((Origin.lines (items.map fun t => x.locate t.span.start)).map _)
  rw [Origin.map, List.getElem?_map]
  cases hitem : items[(Location.move ⟨1, 1⟩ (x.objectPassage items).text.toList o).line - 1]? with
  | some t =>
    exact hx.isIn (Tree.sitedAll_iff.mp hitems t (List.mem_of_getElem? hitem))
  | none =>
    -- only an object without items has no place for the first line
    have hnone := List.getElem?_eq_none_iff.mp hitem
    obtain rfl : items = [] := List.length_eq_zero_iff.mp (by simp only at hline hpos; omega)
    have ho : o = 0 := by
      have := Css.Snippet.le_of_closed ho
      simpa [objectPassage] using this
    have hfirst := Location.isIn_move (Nat.zero_le (byteCount cs))
    rw [Location.move_zero] at hfirst
    rw [ho, Location.move_zero]
    exact hfirst

theorem objectPassage?_placed {t : Tree} (ht : t.Sited cs) (hkeys : x.hasSplitKey t = false)
    {p : Passage} (h : x.objectPassage? t = some p) : p.Placed cs .declarations := by
  obtain ⟨items, hitems, h⟩ := Option.bind_eq_some_iff.mp h
  rw [← Option.some.inj h]
  refine objectPassage_placed hx (objectWithin_sited hx.bindings ht hitems) fun t ht => ?_
  rw [hasSplitKey, hitems] at hkeys
  simpa using List.any_eq_false.mp hkeys t ht

theorem cssPassage?_placed {t : Tree} (ht : t.Sited cs) (hkeys : x.hasSplitKey t = false)
    (hwritten : x.isWritten t = true) {p : Passage} (h : x.cssPassage? t = some p) :
    p.Placed cs .declarations := by
  unfold cssPassage? at h
  split at h
  next => exact absurd h (by simp)
  next hshape => exact string_placed hx hshape hwritten _ h
  next hshape => exact template_placed hx hshape _ h
  next => exact objectPassage?_placed hx ht hkeys h

/-- The text of a child has places in the source: markup stands there as it is. -/
theorem childPassage?_placed {t : Tree} (ht : t.Sited cs) (hrestated : x.isRestatedChild t = false)
    {p : Passage} (h : x.childPassage? t = some p) : p.Placed cs .stylesheet := by
  unfold childPassage? at h
  split at h
  next value span _ =>
    split at h
    · exact absurd h (by simp)
    · obtain ⟨back, front, hcs, hstart⟩ := (Tree.sited_node.mp ht).2.1
      have hstands : StandsAt cs span.start value.toList :=
        ⟨front, back, by rw [hcs, List.append_assoc], hstart.symm⟩
      rw [← Option.some.inj h, hx.locate]
      exact placed_of_standsAt hstands (.refl _) _
  next e =>
    refine passage?_placed hx (Tree.sitedAll_cons.mp ht.children).1 ?_ h
    simpa [isRestatedChild] using hrestated
  next => exact absurd h (by simp)

omit hx in
theorem innerMarkup?_sited {t e : Tree} (ht : t.Sited cs) (h : innerMarkup? t = some e) :
    e.Sited cs := by
  have hvalue : ∀ {v : Tree}, v.Sited cs → markupValue? v = some e → e.Sited cs := by
    intro v hv h
    unfold markupValue? at h
    split at h
    next items =>
      obtain ⟨item, hitem, h⟩ := List.exists_of_findSome?_eq_some h
      have hsited := Tree.sitedAll_iff.mp hv.children item hitem
      split at h
      next =>
        split at h
        · exact Tree.sitedAll_iff.mp hsited.children e (List.mem_of_getLast? h)
        · exact absurd h (by simp)
      next => exact absurd h (by simp)
    next => exact absurd h (by simp)
  unfold innerMarkup? at h
  split at h
  next =>
    split at h
    · exact hvalue (Tree.sitedAll_cons.mp (Tree.sitedAll_cons.mp ht.children).1.children).1 h
    · exact absurd h (by simp)
  next => exact absurd h (by simp)

/-- The text of a style element has places in the source. If it is joined from several parts, they
have the place of the element. -/
theorem elementPassage?_placed {place : Location} (hplace : place.IsIn cs) {children : List Tree}
    (hchildren : Tree.SitedAll cs children) (hrestated : x.isRestatedContent children = false)
    {p : Passage} (h : x.elementPassage? place children = some p) : p.Placed cs .stylesheet := by
  unfold isRestatedContent at hrestated
  unfold elementPassage? at h
  cases hmarkup : children.findSome? innerMarkup? with
  | some e =>
    simp only [hmarkup, Bool.not_eq_false'] at h hrestated
    obtain ⟨t, ht, he⟩ := List.exists_of_findSome?_eq_some hmarkup
    have hsited := innerMarkup?_sited (Tree.sitedAll_iff.mp hchildren t ht) he
    exact passage?_placed hx hsited hrestated h
  | none =>
    simp only [hmarkup] at h hrestated
    split at h
    next => exact absurd h (by simp)
    next q hq =>
      have hmem : q ∈ children.filterMap x.childPassage? := hq ▸ List.mem_singleton_self q
      obtain ⟨t, ht, hpassage⟩ := List.mem_filterMap.mp hmem
      rw [hq] at hrestated
      have hchild : x.isRestatedChild t = false := by
        simpa using List.any_eq_false.mp (by simpa using hrestated) t ht
      rw [← Option.some.inj h]
      exact childPassage?_placed hx (Tree.sitedAll_iff.mp hchildren t ht) hchild hpassage
    next =>
      rw [← Option.some.inj h]
      exact placed_gathered _ hplace

theorem attributePassage?_placed {name : String} {value : List Tree}
    (hvalue : Tree.SitedAll cs value) (hname : name = "style" ∨ name = "css")
    (hrestated : x.isRestatedValue name value = false) {p : Passage}
    (h : attributePassage? x name value = some p) : p.Placed cs .declarations := by
  unfold attributePassage? at h
  split at h
  next e =>
    have he := (Tree.sitedAll_cons.mp (Tree.sitedAll_cons.mp hvalue).1.children).1
    simp only [isRestatedValue, Bool.or_eq_false_iff] at hrestated
    obtain ⟨hkeys, hwritten⟩ := hrestated
    split at h
    next => exact objectPassage?_placed hx he hkeys h
    next hstyle =>
      have hcss : name = "css" := hname.resolve_left hstyle
      exact cssPassage?_placed hx he hkeys (by simpa [hcss] using hwritten) h
  next text span children =>
    split at h
    next hcss =>
      rw [isRestatedValue] at hrestated
      · exact string_placed hx rfl (by simpa [hcss] using hrestated) _ h
      · simp
    next => exact absurd h (by simp)
  next => exact absurd h (by simp)

end Context

/-- The text of a place for styles has other lines than the source: it is a string that is written
with escapes, or made of an object with a key that takes several lines. -/
def isRestated (x : Context) : Tree → Bool
  | .node (.element (some name)) _ children => name = "style" && x.isRestatedContent children
  | .node (.attr (some name)) _ value =>
    (name = "style" || name = "css") && x.isRestatedValue name value
  | _ => false

/-- What is read off a place for styles that is not restated has places in the source. -/
theorem stylePlace?_placed {cs : List Char} {x : Context} (hx : x.Reads cs) {t : Tree}
    (ht : t.Sited cs) (hrestated : isRestated x t = false) {place : StylePlace}
    (hplace : stylePlace? x t = some place) {s : Css.Snippet} (hs : place.snippet = some s) :
    s.Placed cs := by
  unfold stylePlace? at hplace
  split at hplace
  next tag rest =>
    split at hplace
    next =>
      rw [← Option.some.inj hplace] at hs
      obtain ⟨q, hq, rfl⟩ := exists_of_snippet? hs
      obtain ⟨template, hlast, hq⟩ := Option.bind_eq_some_iff.mp hq
      have htemplate := (Tree.sited_node.mp ht).2.1 template (by simp [List.getLast?_cons, hlast])
      obtain ⟨pieces, hshape⟩ := htemplate
      exact Context.template_placed hx hshape _ hq
    next => exact absurd hplace (by simp)
  next name span children =>
    split at hplace
    next hname =>
      rw [← Option.some.inj hplace] at hs
      have hcontent : x.isRestatedContent children = false := by
        simpa [isRestated, hname] using hrestated
      obtain ⟨q, hq, rfl⟩ := exists_of_snippet? hs
      exact Context.elementPassage?_placed hx (hx.isIn ht) ht.children hcontent hq
    next => exact absurd hplace (by simp)
  next name _ value =>
    split at hplace
    next hname =>
      rw [← Option.some.inj hplace] at hs
      have hvalue : x.isRestatedValue name value = false := by
        simpa [isRestated, hname] using hrestated
      obtain ⟨q, hq, rfl⟩ := exists_of_snippet? hs
      exact Context.attributePassage?_placed hx ht.children (by simpa using hname) hvalue hq
    next => exact absurd hplace (by simp)
  next => exact absurd hplace (by simp)

-- Two newlines that are escaped in a source of one line: what stands behind them is on line 3.
example : ((parse? "<div css=\x7b\"\\n\\ngap: 1px\"\x7d />").any fun c => c.tree.nodes.any fun n =>
    isRestated c.context n && (stylePlace? c.context n).any fun p => p.snippet.any fun s =>
      (s.locate (.ofText s.source) 4).line = 3) = true := by decide +kernel

/-! ## Usages -/

/-- A usage is read off a place for styles whose text has other lines than the source. -/
def Restates (c : Component) (u : Usage) : Prop :=
  ∃ n ∈ c.tree.nodes, isRestated c.context n = true ∧
    ∃ place s, stylePlace? c.context n = some place ∧ place.snippet = some s ∧ u ∈ s.usages

theorem context_reads {code : String} {c : Component} (h : parse? code = some c) :
    c.source = code ∧ c.tree.Sited code.toList ∧ c.context.Reads code.toList := by
  obtain ⟨tree, htree, h⟩ := Option.bind_eq_some_iff.mp h
  obtain rfl := Option.some.inj h
  have hsited := parse?_sited htree
  exact ⟨rfl, hsited, rfl, LineIndex.locate_eq code, Bindings.ofScript_sited hsited⟩

theorem scriptUsages_isIn {code : String} {c : Component} (h : parse? code = some c) :
    ∀ u ∈ c.scriptUsages, ∀ l, u.location = some l → l.IsIn code.toList := by
  obtain ⟨rfl, hsited, -⟩ := context_reads h
  intro u hu l hl
  obtain ⟨o, ho, hloc⟩ := usagesOf_starts hsited _ u hu
  rw [hloc] at hl
  rw [← Option.some.inj hl]
  exact Location.isIn_move (Nat.le_of_lt ho)

theorem styleUsages_isIn {code : String} {c : Component} (h : parse? code = some c) :
    ∀ u ∈ c.styleUsages, ∀ l, u.location = some l → l.IsIn code.toList ∨ c.Restates u := by
  obtain ⟨-, hsited, hreads⟩ := context_reads h
  intro u hu l hl
  obtain ⟨s, hs, hu⟩ := List.mem_flatMap.mp hu
  obtain ⟨place, hplace, hs⟩ := List.mem_filterMap.mp hs
  obtain ⟨n, hn, hplace⟩ := List.mem_filterMap.mp hplace
  cases hrestated : isRestated c.context n with
  | true => exact .inr ⟨n, hn, hrestated, place, s, hplace, hs, hu⟩
  | false =>
    have hplaced := stylePlace?_placed hreads (hsited.nodes c.tree n hn) hrestated hplace hs
    exact .inl (Css.Snippet.usages_isIn hplaced u hu l hl)

end Component

namespace Checker

/-- The report on a component has the issues of its script and then those of its styles. -/
theorem issues_of_auditComponent {c : Checker} {code : String} {r : Report}
    (h : c.auditComponent code = some r) :
    r.issues = (Component.parse? code).elim [] fun k =>
      c.issuesOf k.scriptUsages ++ c.issuesOf k.styleUsages := by
  rw [show c.auditComponent code = _ from c.run_eq code .component] at h
  split at h
  · exact absurd h (by simp)
  · rw [← Option.some.inj h, Route.parts]
    generalize Component.parse? code = k?
    cases k? with
    | none => rfl
    | some k => simp [reportOf, Report.ofIssues]

/-- Every location in the report on a component is one of its source, unless it is read off styles
whose text has other lines than the source. There is a report if the source of statuses never breaks
down. -/
theorem auditComponent_isIn (c : Checker) (code : String) :
    (c.Steady → ∃ r, c.auditComponent code = some r) ∧
    ∀ r, c.auditComponent code = some r → ∀ i ∈ r.issues, ∀ l, i.location = some l →
      l.IsIn code.toList ∨ ∃ k, Component.parse? code = some k ∧ k.Restates i.usage := by
  refine ⟨fun hc => ⟨_, report?_eq hc code (.direct .component)⟩, fun r hr i hi l hl => ?_⟩
  rw [issues_of_auditComponent hr] at hi
  cases hk : Component.parse? code with
  | none =>
    rw [hk] at hi
    exact absurd hi List.not_mem_nil
  | some k =>
    rw [hk] at hi
    rcases List.mem_append.mp hi with hi | hi
    · obtain ⟨u, hu, -, rfl⟩ := mem_issuesOf hi
      exact .inl (Component.scriptUsages_isIn hk u hu l hl)
    · obtain ⟨u, hu, -, rfl⟩ := mem_issuesOf hi
      exact (Component.styleUsages_isIn hk u hu l hl).imp_right fun h => ⟨k, rfl, h⟩

/-- The issues of an attribute, of a style object and of a script all have places. -/
theorem auditComponent_isIn_map :
    ∃ r i l, (unaware .high).auditComponent
        "<p css=\"gap: 1px\" style=\x7b\x7bgap: 1\x7d\x7d>\x7bMap\x7d</p>" = some r ∧
      i ∈ r.issues ∧ i.key = "javascript.builtins.Map" ∧ i.location = some l ∧
      ∀ j ∈ r.issues, ∀ m, j.location = some m →
        m.IsIn "<p css=\"gap: 1px\" style=\x7b\x7bgap: 1\x7d\x7d>\x7bMap\x7d</p>".toList := by
  have hfound : ((Component.parse?
      "<p css=\"gap: 1px\" style=\x7b\x7bgap: 1\x7d\x7d>\x7bMap\x7d</p>").any fun k =>
        k.tree.nodes.all (fun n => !Component.isRestated k.context n) &&
        ((unaware .high).issuesOf k.scriptUsages).any fun i =>
          i.key = "javascript.builtins.Map" && i.location.isSome) = true := by decide +kernel
  obtain ⟨k, hk, h⟩ := (Option.any_eq_true _ _).mp hfound
  obtain ⟨hnodes, hissues⟩ := Bool.and_eq_true_iff.mp h
  obtain ⟨i, hi, hmap⟩ := List.any_eq_true.mp hissues
  obtain ⟨hkey, hplace⟩ : i.key = "javascript.builtins.Map" ∧ i.location.isSome := by
    simpa using hmap
  obtain ⟨l, hl⟩ := Option.isSome_iff_exists.mp hplace
  obtain ⟨hreport, hplaces⟩ := auditComponent_isIn (unaware .high)
    "<p css=\"gap: 1px\" style=\x7b\x7bgap: 1\x7d\x7d>\x7bMap\x7d</p>"
  obtain ⟨r, hr⟩ := hreport (unaware_steady .high)
  refine ⟨r, i, l, hr, ?_, hkey, hl, fun j hj m hm => ?_⟩
  · rw [issues_of_auditComponent hr, hk]
    exact List.mem_append_left _ hi
  · rcases hplaces r hr j hj m hm with hin | ⟨k', hk', n, hn, hrestated, -⟩
    · exact hin
    · rw [hk] at hk'
      obtain rfl := Option.some.inj hk'
      have := List.all_eq_true.mp hnodes n hn
      rw [hrestated] at this
      exact absurd this (by decide)

end Checker

end BaselineAudit
