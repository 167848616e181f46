import BaselineAudit.Component.Styles
import BaselineAudit.Proofs.Script.Usages

/-!
# What a component uses outside of its styles

What stands in a place for styles counts as no part of the script, also if the place gives no styles:
`style={f()}` hides the call. So a usage is missed exactly if it stands in such an idle place.

* `Component.isIdle`: the places that give no styles, by their form.
* `Component.stylePlace?_snippet`: a place gives no styles exactly if it is idle.
* `Component.usage_kept_or_styled`: a usage in no idle place is kept, or stands in a place that gives
  styles.
-/

namespace BaselineAudit

/-! ## Blank texts -/

namespace Text

theorem allBlank_append (s t : String) : allBlank (s ++ t) = (allBlank s && allBlank t) := by
  simp [allBlank, List.all_append]

/-- Lines are blank together if each of them is. -/
theorem allBlank_lines (lines : List String) :
    allBlank ("\n".intercalate lines) = lines.all allBlank := by
  induction lines with
  | nil => rfl
  | cons s lines ih =>
    cases lines with
    | nil => simp [String.intercalate_singleton]
    | cons t lines =>
      rw [String.intercalate_cons_cons, allBlank_append, allBlank_append, ih, List.all_cons]
      simp [show allBlank "\n" = true by decide]

end Text

namespace Component

open Script Text

theorem allBlank_comment (text : String) : allBlank (comment text) = false := by
  rw [comment, allBlank_append, allBlank_append]
  simp [show allBlank "/* " = false by decide]

theorem allBlank_styleLine (b : Bindings) (name : String) (value : Tree) :
    allBlank (styleLine b name value) = false := by
  unfold styleLine
  split
  · rw [allBlank_append, allBlank_append, allBlank_append]
    simp [show allBlank ": " = false by decide]
  · exact allBlank_comment name

/-- Every item of a style object has a line with something in it. -/
theorem allBlank_itemLine (b : Bindings) (t : Tree) : allBlank (itemLine b t) = false := by
  unfold itemLine
  split
  · split
    · exact allBlank_styleLine b _ _
    · exact allBlank_comment _
  · exact allBlank_comment _
  · exact allBlank_comment _

/-! ## Idle places -/

namespace Context

variable (x : Context)

/-- The text of an expression is known and not blank. -/
def hasText (t : Tree) : Bool := (x.passage? t).any fun p => !allBlank p.text

/-- An expression stands for an object with something in it. -/
def hasItems (t : Tree) : Bool := (object? x.bindings t).any fun items => !items.isEmpty

/-- A child of a style element gives some of its text. -/
def hasChildText : Tree → Bool
  | .node (.text value) _ _ => !allBlank value
  | .node .container _ [e] => x.hasText e
  | _ => false

/-- The value of a `css` attribute gives styles. A template with a tag counts on its own. -/
def hasCss (t : Tree) : Bool :=
  match t.shape with
  | .tagged => false
  | .string _ | .template _ => x.hasText t
  | _ => x.hasItems t

/-- The value of an attribute for styles gives some. -/
def hasStyles (name : String) : List Tree → Bool
  | [.node .container _ [e]] => if name = "style" then x.hasItems e else x.hasCss e
  | [.node (.string text) _ _] => name = "css" && !allBlank text
  | _ => false

/-- A style element has text: what an attribute sets, or else what its children give. -/
def hasContent (children : List Tree) : Bool :=
  match children.findSome? innerMarkup? with
  | some e => x.hasText e
  | none => children.any x.hasChildText

end Context

/-- A place for styles that gives none: a template, an element or an attribute whose text is not known
or blank, or an attribute whose value is no object with something in it. -/
def isIdle (x : Context) : Tree → Bool
  | .node .tagged _ (tag :: rest) => isStyledTag tag && !rest.getLast?.any x.hasText
  | .node (.element (some name)) _ children => name = "style" && !x.hasContent children
  | .node (.attr (some name)) _ value => (name = "style" || name = "css") && !x.hasStyles name value
  | _ => false

theorem snippet?_isSome (p : Passage) (form : Css.Form) :
    (p.snippet? form).isSome = !allBlank p.text := by
  unfold Passage.snippet?
  split <;> simp_all

theorem isSome_bind_snippet? (p : Option Passage) (form : Css.Form) :
    (p.bind (·.snippet? form)).isSome = p.any fun p => !allBlank p.text := by
  cases p with
  | none => rfl
  | some p => exact snippet?_isSome p form

namespace Context

variable (x : Context)

theorem any_objectPassage? (t : Tree) :
    ((x.objectPassage? t).any fun p => !allBlank p.text) = x.hasItems t := by
  unfold objectPassage? hasItems
  cases object? x.bindings t with
  | none => rfl
  | some items =>
    cases items with
    | nil => rfl
    | cons item items => simp [objectPassage, allBlank_lines, allBlank_itemLine]

theorem any_childPassage? (t : Tree) :
    ((x.childPassage? t).any fun p => !allBlank p.text) = x.hasChildText t := by
  unfold childPassage?
  split
  · rw [hasChildText]
    split <;> simp_all
  · rfl
  · rw [hasChildText]
    · rfl
    · assumption
    · assumption

theorem any_cssPassage? (t : Tree) :
    ((x.cssPassage? t).any fun p => !allBlank p.text) = x.hasCss t := by
  unfold cssPassage? hasCss
  cases t.shape with
  | tagged => rfl
  | string _ => rfl
  | template _ => rfl
  | _ => exact x.any_objectPassage? t

/-- The text of a style element is blank if that of each child is. -/
theorem any_elementPassage? (place : Location) (children : List Tree) :
    ((x.elementPassage? place children).any fun p => !allBlank p.text) = x.hasContent children := by
  unfold elementPassage? hasContent
  cases children.findSome? innerMarkup? with
  | some e => rfl
  | none =>
    have hparts : children.any x.hasChildText =
        (children.filterMap x.childPassage?).any fun p => !allBlank p.text := by
      rw [List.any_filterMap]
      exact congrArg (children.any ·) (funext fun t => (x.any_childPassage? t).symm)
    simp only [hparts]
    generalize children.filterMap x.childPassage? = parts
    match parts with
    | [] => rfl
    | [p] => simp
    | p :: q :: parts =>
      simp only [Option.any_some, Passage.gathered, allBlank_lines, List.not_all_eq_any_not,
        List.any_map, Function.comp_def]

end Context

theorem any_attributePassage? (x : Context) (name : String) (value : List Tree) :
    ((attributePassage? x name value).any fun p => !allBlank p.text) = x.hasStyles name value := by
  unfold attributePassage?
  split
  next e =>
    rw [Context.hasStyles]
    split
    · exact x.any_objectPassage? e
    · exact x.any_cssPassage? e
  next text _ _ =>
    rw [Context.hasStyles]
    split <;> simp_all [Context.passage?, Tree.shape]
  next =>
    rw [Context.hasStyles]
    · rfl
    all_goals assumption

/-- A place gives styles unless it is idle. -/
theorem stylePlace?_snippet {x : Context} {t : Tree} {p : StylePlace} (h : stylePlace? x t = some p) :
    p.span = t.span ∧ p.snippet.isSome = !isIdle x t := by
  unfold stylePlace? at h
  split at h
  next tag rest =>
    split at h
    next htag =>
      rw [← Option.some.inj h]
      refine ⟨rfl, ?_⟩
      rw [isSome_bind_snippet?, isIdle, htag, Bool.true_and, Bool.not_not]
      cases rest.getLast? <;> rfl
    next => exact absurd h (by simp)
  next name _ children =>
    split at h
    next hname =>
      rw [← Option.some.inj h]
      exact ⟨rfl, by simp [isSome_bind_snippet?, x.any_elementPassage?, isIdle, hname]⟩
    next => exact absurd h (by simp)
  next name _ value =>
    split at h
    next hname =>
      rw [← Option.some.inj h]
      exact ⟨rfl, by simp only [isSome_bind_snippet?, any_attributePassage?, isIdle, hname,
        Bool.true_and, Bool.not_not]⟩
    next => exact absurd h (by simp)
  next => exact absurd h (by simp)

/-- An idle place is a place for styles. -/
theorem stylePlace?_isSome_of_isIdle {x : Context} {t : Tree} (h : isIdle x t = true) :
    (stylePlace? x t).isSome := by
  unfold isIdle at h
  split at h
  next => rw [stylePlace?, if_pos ((Bool.and_eq_true_iff.mp h).1)]; rfl
  next => rw [stylePlace?, if_pos (of_decide_eq_true (Bool.and_eq_true_iff.mp h).1)]; rfl
  next => rw [stylePlace?, if_pos ((Bool.and_eq_true_iff.mp h).1)]; rfl
  next => exact absurd h (by simp)

/-! ## What is kept -/

/-- A node stands in a place that gives styles. -/
def inStyles (c : Component) (n : Tree) : Bool :=
  c.stylePlaces.any fun p => p.snippet.isSome && n.span.within p.span

/-- A node stands in a place for styles that gives none. -/
def inIdle (c : Component) (n : Tree) : Bool :=
  c.tree.nodes.any fun t => isIdle c.context t && n.span.within t.span

/-- Every place for styles either gives some or is idle. -/
theorem isSuppressed_stylePlaces (c : Component) (n : Tree) :
    isSuppressed (c.stylePlaces.map (·.span)) n.span = (c.inStyles n || c.inIdle n) := by
  rw [Bool.eq_iff_iff, Bool.or_eq_true]
  simp only [isSuppressed, inStyles, inIdle, List.any_map, List.any_eq_true, Function.comp_apply,
    Bool.and_eq_true]
  constructor
  · rintro ⟨p, hp, hn⟩
    obtain ⟨t, ht, hplace⟩ := List.mem_filterMap.mp hp
    obtain ⟨hspan, hsnippet⟩ := stylePlace?_snippet hplace
    cases hidle : isIdle c.context t with
    | false => exact .inl ⟨p, hp, by simp [hsnippet, hidle], hn⟩
    | true => exact .inr ⟨t, ht, hidle, hspan ▸ hn⟩
  · rintro (⟨p, hp, -, hn⟩ | ⟨t, ht, hidle, hn⟩)
    · exact ⟨p, hp, hn⟩
    · obtain ⟨p, hplace⟩ := Option.isSome_iff_exists.mp (stylePlace?_isSome_of_isIdle hidle)
      refine ⟨p, List.mem_filterMap.mpr ⟨t, ht, hplace⟩, ?_⟩
      rw [(stylePlace?_snippet hplace).1]
      exact hn

/-- A usage that stands in no idle place is kept, or stands in a place that gives styles. What is kept
are the usages in neither, in order. -/
theorem usage_kept_or_styled (c : Component) :
    (∀ n ∈ c.tree.visited, ∀ u, usage? (LineIndex.ofText c.source).locate n = some u →
      c.inIdle n = false → u ∈ c.scriptUsages ∨ c.inStyles n = true) ∧
    c.scriptUsages = (c.tree.visited.filter fun n => !c.inStyles n && !c.inIdle n).filterMap
      (usage? (LineIndex.ofText c.source).locate) := by
  have hkept : c.scriptUsages = (c.tree.visited.filter fun n => !c.inStyles n && !c.inIdle n).filterMap
      (usage? (LineIndex.ofText c.source).locate) := by
    rw [scriptUsages, usagesOf_eq_visited, List.filterMap_filter]
    refine congrArg (c.tree.visited.filterMap ·) (funext fun n => ?_)
    rw [isSuppressed_stylePlaces, ← Bool.not_or]
    cases c.inStyles n || c.inIdle n <;> rfl
  refine ⟨fun n hn u hu hidle => ?_, hkept⟩
  cases hstyles : c.inStyles n with
  | true => exact .inr rfl
  | false =>
    rw [hkept]
    exact .inl (List.mem_filterMap.mpr ⟨n, List.mem_filter.mpr ⟨hn, by simp [hstyles, hidle]⟩, hu⟩)

/-- In a component with one style object, a usage outside of it is kept. -/
theorem usage_kept_or_styled_map :
    ∃ c n u, parse? "<p style=\x7b\x7bgap: f()\x7d\x7d>\x7bMap\x7d</p>" = some c ∧ n ∈ c.tree.visited ∧
      usage? (LineIndex.ofText c.source).locate n = some u ∧ u.key = "javascript.builtins.Map" ∧
      c.inIdle n = false ∧ (u ∈ c.scriptUsages ∨ c.inStyles n = true) := by
  have hfound : ((parse? "<p style=\x7b\x7bgap: f()\x7d\x7d>\x7bMap\x7d</p>").any fun c =>
      c.tree.visited.any fun n => (usage? (LineIndex.ofText c.source).locate n).any fun u =>
        u.key = "javascript.builtins.Map" && !c.inIdle n) = true := by decide +kernel
  obtain ⟨c, hc, hnodes⟩ := (Option.any_eq_true _ _).mp hfound
  obtain ⟨n, hn, husage⟩ := List.any_eq_true.mp hnodes
  obtain ⟨u, hu, h⟩ := (Option.any_eq_true _ _).mp husage
  have hkey : u.key = "javascript.builtins.Map" ∧ c.inIdle n = false := by simpa using h
  exact ⟨c, n, u, hc, hn, hu, hkey.1, hkey.2, (usage_kept_or_styled c).1 n hn u hu hkey.2⟩

/-- An attribute that gives no styles hides the usages in its value. -/
theorem usage_lost_call :
    ∃ c n u, parse? "<div style=\x7bgetStyle()\x7d />" = some c ∧ n ∈ c.tree.visited ∧
      usage? (LineIndex.ofText c.source).locate n = some u ∧ u ∉ c.scriptUsages ∧
      c.inStyles n = false := by
  have hfound : ((parse? "<div style=\x7bgetStyle()\x7d />").any fun c =>
      c.tree.visited.any fun n => (usage? (LineIndex.ofText c.source).locate n).any fun u =>
        decide (u ∉ c.scriptUsages) && !c.inStyles n) = true := by decide +kernel
  obtain ⟨c, hc, hnodes⟩ := (Option.any_eq_true _ _).mp hfound
  obtain ⟨n, hn, husage⟩ := List.any_eq_true.mp hnodes
  obtain ⟨u, hu, h⟩ := (Option.any_eq_true _ _).mp husage
  have hlost : u ∉ c.scriptUsages ∧ c.inStyles n = false := by simpa using h
  exact ⟨c, n, u, hc, hn, hu, hlost⟩

end Component

end BaselineAudit
