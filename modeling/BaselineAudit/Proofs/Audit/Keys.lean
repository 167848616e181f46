import BaselineAudit.Audit.Analysis
import BaselineAudit.Proofs.Css.Declarations
import BaselineAudit.Proofs.Script.Usages
import BaselineAudit.Proofs.Text.Letters
import BaselineAudit.Proofs.Text.Location
import Mathlib.Data.List.Basic

/-!
# Keys and places of usages

What the readers of style sheets, documents, scripts and components find always has one form.

* `Usage.IsKeyed`: the key of a usage follows from its kind, its property and its value.
* `Usage.IsPlaced`: a usage has a location unless it is an element or an attribute of a document, and
  lines and columns count from 1.
* `Usage.Starts`: a usage starts somewhere in a text. Those of style sheets and scripts do, which is
  shown with their parsers.
* `Css.Snippet.usages_isFound`, `Html.Document.usages_isFound`, `Script.usagesOf_isFound`,
  `Component.styleUsages_isFound`: the first two hold of everything that is found, and what each
  reader finds is of its own kinds.
* `Usage.key_ne_of_realm_ne`: usages found in style sheets, in documents and in scripts never have a
  key in common.
-/

namespace BaselineAudit

/-! ## The form of a usage -/

/-- There is no ASCII capital in a text. -/
def Text.NoCapital (s : String) : Prop := ∀ c ∈ s.toList, c.isUpper = false

/-- A word over small letters, digits, `_` and `-` that starts with a letter or `_`, behind a dash if
there is one. -/
def Text.IsWord (s : String) : Prop :=
  ∃ dash c rest, s.toList = dash ++ c :: rest ∧ (dash = [] ∨ dash = ['-']) ∧
    (c.isLower = true ∨ c = '_') ∧
    ∀ d ∈ rest, d.isLower = true ∨ d.isDigit = true ∨ d = '_' ∨ d = '-'

/-- Lines and columns count from 1. -/
def Location.Counted (l : Location) : Prop := 1 ≤ l.line ∧ 1 ≤ l.column

namespace Usage

/-- The key follows from the kind, the property and the value. -/
def IsKeyed (u : Usage) : Prop :=
  match u.kind with
  | .property =>
    u.key = "css.properties." ++ u.property ∧ u.value = none ∧ Text.NoCapital u.property
  | .propertyValue =>
    ∃ v, u.key = "css.properties." ++ u.property ++ "." ++ v ∧ u.value = some v ∧ Text.IsWord v ∧
      Text.NoCapital u.property
  | .element => u.key = "html.elements." ++ u.property ∧ u.value = none ∧ Text.NoCapital u.property
  | .attr =>
    u.key = "html.global_attributes." ++ u.property ∧ u.value = none ∧ Text.NoCapital u.property
  | .builtin => u.key = "javascript.builtins." ++ u.property ∧ u.value = none
  | .api => ∃ v, u.key = "api." ++ u.property ++ "." ++ v ∧ u.value = some v

/-- Elements and attributes have no location, and all other usages have one. -/
def IsPlaced (u : Usage) : Prop :=
  match u.kind with
  | .element | .attr => u.location = none
  | _ => ∃ l, u.location = some l ∧ l.Counted

/-- A usage starts in front of the end of a text. -/
def Starts (cs : List Char) (u : Usage) : Prop :=
  ∃ o < byteCount cs, u.location = some (Location.move ⟨1, 1⟩ cs o)

end Usage

/-- Where things of the web platform are used. -/
inductive Realm where
  | styles
  | documents
  | scripts
  deriving DecidableEq

/-- The realm of a kind of usage. -/
def UsageKind.realm : UsageKind → Realm
  | .property | .propertyValue => .styles
  | .element | .attr => .documents
  | .builtin | .api => .scripts

/-- A usage as it is found in a realm. -/
structure Usage.IsFound (r : Realm) (u : Usage) : Prop where
  realm : u.kind.realm = r
  keyed : u.IsKeyed
  placed : u.IsPlaced

namespace Usage

/-- The first letter of the key tells the realms apart. -/
theorem head_key {u : Usage} (h : u.IsKeyed) :
    match u.kind.realm with
    | .styles => u.key.toList.head? = some 'c'
    | .documents => u.key.toList.head? = some 'h'
    | .scripts => u.key.toList.head? = some 'j' ∨ u.key.toList.head? = some 'a' := by
  unfold IsKeyed at h
  cases hk : u.kind <;> rw [hk] at h <;> simp only [UsageKind.realm]
  case property => rw [h.1]; simp
  case propertyValue => obtain ⟨v, h, -⟩ := h; rw [h]; simp
  case element => rw [h.1]; simp
  case attr => rw [h.1]; simp
  case builtin => rw [h.1]; simp
  case api => obtain ⟨v, h, -⟩ := h; rw [h]; simp

/-- Usages of different realms never have a key in common. -/
theorem key_ne_of_realm_ne {r s : Realm} {u v : Usage} (hu : u.IsFound r) (hv : v.IsFound s)
    (h : r ≠ s) : u.key ≠ v.key := by
  have h₁ := head_key hu.keyed
  have h₂ := head_key hv.keyed
  rw [hu.realm] at h₁
  rw [hv.realm] at h₂
  intro hk
  rw [hk] at h₁
  cases r <;> cases s <;> simp_all

end Usage

/-! ## Letters -/

theorem Text.noCapital_map_toLower (s : String) : Text.NoCapital (s.map Char.toLower) := by
  intro c hc
  rw [String.toList_map] at hc
  obtain ⟨d, -, rfl⟩ := List.mem_map.mp hc
  exact isUpper_toLower d

/-! ## Locations -/

theorem LineIndex.locate_counted (i : LineIndex) (offset : Nat) : (i.locate offset).Counted :=
  ⟨Nat.le_add_left 1 _, Nat.le_add_left 1 _⟩

/-- The locations that an origin knows count from 1. -/
def Origin.Counted : Origin → Prop
  | .whole => True
  | .verbatim start => start.Counted
  | .lines anchors => ∀ a ∈ anchors, a.Counted

theorem Origin.map_counted {o : Origin} (ho : o.Counted) {l : Location} (hl : l.Counted) :
    (o.map l).Counted := by
  obtain ⟨h₁, h₂⟩ := hl
  cases o with
  | whole => exact ⟨h₁, h₂⟩
  | verbatim start =>
    obtain ⟨h₃, h₄⟩ := ho
    show Location.Counted (if l.line = 1 then _ else _)
    split
    · exact ⟨h₃, show 1 ≤ start.column + l.column - 1 by omega⟩
    · exact ⟨show 1 ≤ start.line + l.line - 1 by omega, h₂⟩
  | lines anchors =>
    show ((anchors[l.line - 1]?).getD l).Counted
    cases ha : anchors[l.line - 1]? with
    | none => exact ⟨h₁, h₂⟩
    | some a => exact ho a (List.mem_of_getElem? ha)

/-! ## Style sheets -/

namespace Css

theorem isWord_of_isIdentifier {cs : List Char} (h : isIdentifier cs = true) :
    Text.IsWord (String.ofList (cs.map Char.toLower)) := by
  have start : ∀ {c : Char}, isNameStart c = true → c.toLower.isLower = true ∨ c.toLower = '_' := by
    intro c hc
    rcases Bool.or_eq_true _ _ ▸ hc with hc | hc
    · exact .inl (isLower_toLower hc)
    · rw [of_decide_eq_true hc]; exact .inr rfl
  have more : ∀ {cs : List Char}, cs.all isNameRest = true → ∀ d ∈ cs.map Char.toLower,
      d.isLower = true ∨ d.isDigit = true ∨ d = '_' ∨ d = '-' := by
    intro cs hcs d hd
    obtain ⟨c, hc, rfl⟩ := List.mem_map.mp hd
    have hc := List.all_eq_true.mp hcs c hc
    simp only [isNameRest, Char.isAlphanum, Bool.or_eq_true, decide_eq_true_eq] at hc
    rcases hc with ((hc | hc) | rfl) | rfl
    · exact .inl (isLower_toLower hc)
    · rw [toLower_of_isDigit hc]; exact .inr (.inl hc)
    · exact .inr (.inr (.inr rfl))
    · exact .inr (.inr (.inl rfl))
  unfold isIdentifier at h
  split at h
  · rename_i c rest
    obtain ⟨hc, hr⟩ := Bool.and_eq_true _ _ ▸ h
    exact ⟨['-'], c.toLower, rest.map Char.toLower, by simp, .inr rfl, start hc, more hr⟩
  · rename_i c rest _
    obtain ⟨hc, hr⟩ := Bool.and_eq_true _ _ ▸ h
    exact ⟨[], c.toLower, rest.map Char.toLower, by simp, .inl rfl, start hc, more hr⟩
  · exact absurd h (by decide)

mutual

/-- The values of a declaration are words. -/
theorem identifiersOf_isWord (cs : List Char) :
    (n : Parsing.Node) → ∀ v ∈ identifiersOf cs n, Text.IsWord v
  | ⟨label, start, size, hasError, children⟩ => by
    intro v hv
    rw [identifiersOf] at hv
    split at hv
    · exact absurd hv List.not_mem_nil
    · split at hv
      · simp only at hv
        split at hv
        · rename_i h
          rw [List.mem_singleton.mp hv]
          exact isWord_of_isIdentifier h
        · exact absurd hv List.not_mem_nil
      · exact identifiersOfAll_isWord cs children v hv

theorem identifiersOfAll_isWord (cs : List Char) :
    (ns : List Parsing.Node) → ∀ v ∈ identifiersOfAll cs ns, Text.IsWord v
  | [] => fun v hv => absurd hv (by simp [identifiersOfAll])
  | n :: rest => by
    intro v hv
    rw [identifiersOfAll] at hv
    rcases List.mem_append.mp hv with hv | hv
    · exact identifiersOf_isWord cs n v hv
    · exact identifiersOfAll_isWord cs rest v hv

end

/-- A declaration as it is found. -/
structure Declaration.IsFound (d : Declaration) : Prop where
  property : Text.NoCapital d.property
  values : ∀ v ∈ d.values, Text.IsWord v
  location : d.location.Counted

theorem declaration?_isFound {cs : List Char} {locate : Nat → Location} {n : Parsing.Node}
    {d : Declaration} (hl : ∀ o, (locate o).Counted) (h : declaration? cs locate n = some d) :
    d.IsFound := by
  obtain ⟨-, name, -, rfl⟩ := declaration?_eq_some_iff.mp h
  exact ⟨Text.noCapital_map_toLower _, identifiersOfAll_isWord cs n.children, hl _⟩

mutual

theorem declarationsOf_isFound {cs : List Char} {locate : Nat → Location}
    (hl : ∀ o, (locate o).Counted) :
    (n : Parsing.Node) → ∀ d ∈ declarationsOf cs locate n, d.IsFound
  | ⟨label, start, size, hasError, children⟩ => by
    intro d hd
    rw [declarationsOf] at hd
    split at hd
    · exact absurd hd List.not_mem_nil
    · split at hd
      · exact declaration?_isFound hl (Option.mem_toList.mp hd)
      · exact declarationsOfAll_isFound hl children d hd

theorem declarationsOfAll_isFound {cs : List Char} {locate : Nat → Location}
    (hl : ∀ o, (locate o).Counted) :
    (ns : List Parsing.Node) → ∀ d ∈ declarationsOfAll cs locate ns, d.IsFound
  | [] => fun d hd => absurd hd (by simp [declarationsOfAll])
  | n :: rest => by
    intro d hd
    rw [declarationsOfAll] at hd
    rcases List.mem_append.mp hd with hd | hd
    · exact declarationsOf_isFound hl n d hd
    · exact declarationsOfAll_isFound hl rest d hd

end

theorem Declaration.usages_isFound {d : Declaration} (hd : d.IsFound) :
    ∀ u ∈ d.usages, u.IsFound .styles := by
  intro u hu
  rcases List.mem_cons.mp hu with rfl | hu
  · exact ⟨rfl, ⟨rfl, rfl, hd.property⟩, d.location, rfl, hd.location⟩
  · obtain ⟨v, hv, rfl⟩ := List.mem_map.mp hu
    exact ⟨rfl, ⟨v, rfl, rfl, hd.values v hv, hd.property⟩, d.location, rfl, hd.location⟩

theorem Snippet.locate_counted {s : Snippet} (hs : s.origin.Counted) (index : LineIndex)
    (offset : Nat) : (s.locate index offset).Counted := by
  refine Origin.map_counted hs ⟨(index.locate_counted offset).1, ?_⟩
  show 1 ≤ ite _ _ _
  split
  · exact Nat.le_add_left 1 _
  · exact (index.locate_counted offset).2

theorem Snippet.declarations_eq : ∀ s : Snippet,
    s.declarations = (language.get.parse s.source.toList).elim [] fun tree =>
      declarationsOfAll s.source.toList (s.locate (.ofText s.source)) tree.nodes := by
  -- Unfolded at an argument, the definition would have the tables of the parser computed.
  refine congrFun (?_ : @Snippet.declarations = _)
  delta Snippet.declarations
  funext s
  generalize language.get.parse = p
  dsimp only
  cases p s.source.toList <;> rfl

theorem Snippet.usages_isFound {s : Snippet} (hs : s.origin.Counted) :
    ∀ u ∈ s.usages, u.IsFound .styles := by
  intro u hu
  obtain ⟨d, hd, hu⟩ := List.mem_flatMap.mp hu
  refine Declaration.usages_isFound ?_ u hu
  rw [Snippet.declarations_eq] at hd
  generalize language.get.parse s.source.toList = tree? at hd
  cases tree? with
  | none => exact absurd hd List.not_mem_nil
  | some tree => exact declarationsOfAll_isFound (Snippet.locate_counted hs _) tree.nodes d hd

end Css

/-! ## Documents -/

namespace Html.Document

theorem tagUsages_isFound (d : Document) (tag : Parsing.Node) :
    ∀ u ∈ d.tagUsages tag, u.IsFound .documents := by
  intro u hu
  obtain ⟨n, -, hn⟩ := List.mem_filterMap.mp hu
  split at hn
  · rw [← Option.some.inj hn]
    exact ⟨rfl, ⟨rfl, rfl, Text.noCapital_map_toLower _⟩, rfl⟩
  · split at hn
    · obtain ⟨name, hname, rfl⟩ := Option.map_eq_some_iff.mp hn
      obtain ⟨text, -, rfl⟩ := Option.map_eq_some_iff.mp hname
      exact ⟨rfl, ⟨rfl, rfl, Text.noCapital_map_toLower _⟩, rfl⟩
    · exact absurd hn (by simp)

mutual

theorem usagesOf_isFound (d : Document) :
    (n : Parsing.Node) → ∀ u ∈ usagesOf d n, u.IsFound .documents
  | ⟨label, start, size, hasError, children⟩ => by
    intro u hu
    rw [usagesOf] at hu
    split at hu
    · exact absurd hu List.not_mem_nil
    · rcases List.mem_append.mp hu with hu | hu
      · split at hu
        · cases ht : startTag? children with
          | none => rw [ht] at hu; exact absurd hu List.not_mem_nil
          | some tag => rw [ht] at hu; exact d.tagUsages_isFound tag u hu
        · exact absurd hu List.not_mem_nil
      · exact usagesOfAll_isFound d children u hu

theorem usagesOfAll_isFound (d : Document) :
    (ns : List Parsing.Node) → ∀ u ∈ usagesOfAll d ns, u.IsFound .documents
  | [] => fun u hu => absurd hu (by simp [usagesOfAll])
  | n :: rest => by
    intro u hu
    rw [usagesOfAll] at hu
    rcases List.mem_append.mp hu with hu | hu
    · exact usagesOf_isFound d n u hu
    · exact usagesOfAll_isFound d rest u hu

end

theorem usages_isFound (d : Document) : ∀ u ∈ d.usages, u.IsFound .documents :=
  usagesOfAll_isFound d d.nodes

theorem block?_counted {d : Document} {i : LineIndex} {kind : BlockKind} {n : Parsing.Node}
    {b : Block} (h : d.block? i.locate kind n = some b) : b.start.Counted := by
  unfold block? at h
  simp only at h
  split at h
  · exact absurd h (by simp)
  · rw [← Option.some.inj h]
    exact i.locate_counted _

mutual

theorem blocksOf_counted (d : Document) (i : LineIndex) :
    (n : Parsing.Node) → ∀ b ∈ blocksOf d i.locate n, b.start.Counted
  | ⟨label, start, size, hasError, children⟩ => by
    intro b hb
    rw [blocksOf] at hb
    split at hb
    · exact absurd hb List.not_mem_nil
    · split at hb
      · split at hb
        · exact absurd hb List.not_mem_nil
        · obtain ⟨n, -, hn⟩ := List.mem_filterMap.mp hb
          exact block?_counted hn
      · exact blocksOfAll_counted d i children b hb

theorem blocksOfAll_counted (d : Document) (i : LineIndex) :
    (ns : List Parsing.Node) → ∀ b ∈ blocksOfAll d i.locate ns, b.start.Counted
  | [] => fun b hb => absurd hb (by simp [blocksOfAll])
  | n :: rest => by
    intro b hb
    rw [blocksOfAll] at hb
    rcases List.mem_append.mp hb with hb | hb
    · exact blocksOf_counted d i n b hb
    · exact blocksOfAll_counted d i rest b hb

end

theorem blocks_counted (d : Document) : ∀ b ∈ d.blocks, b.start.Counted :=
  blocksOfAll_counted d _ d.nodes

end Html.Document

/-! ## Scripts -/

namespace Script

theorem usage?_isFound {locate : Nat → Location} (hl : ∀ o, (locate o).Counted) {t : Tree}
    {u : Usage} (h : usage? locate t = some u) : u.IsFound .scripts := by
  unfold usage? at h
  split at h
  · rw [← Option.some.inj h]
    exact ⟨rfl, ⟨rfl, rfl⟩, _, rfl, hl _⟩
  · rw [← Option.some.inj h]
    exact ⟨rfl, ⟨_, rfl, rfl⟩, _, rfl, hl _⟩
  · exact absurd h (by simp)

theorem usagesOf_isFound {locate : Nat → Location} (hl : ∀ o, (locate o).Counted)
    (suppressed : List Span) (t : Tree) : ∀ u ∈ usagesOf locate suppressed t, u.IsFound .scripts := by
  intro u hu
  obtain ⟨n, -, hn⟩ := exists_node_of_mem_usagesOf _ _ hu
  exact usage?_isFound hl hn

theorem usages?_isFound {dialect : Dialect} {origin : Origin} (ho : origin.Counted)
    {source : String} {us : List Usage} (h : usages? dialect origin source = some us) :
    ∀ u ∈ us, u.IsFound .scripts := by
  obtain ⟨tree, -, ht⟩ := Option.bind_eq_some_iff.mp h
  rw [← Option.some.inj ht]
  exact usagesOf_isFound (fun o => Origin.map_counted ho (LineIndex.locate_counted _ o)) [] tree

end Script

/-! ## Components -/

namespace Component

open Script

theorem gathered_counted {text : String} {place : Location} (h : place.Counted) :
    (Passage.gathered text place).origin.Counted := by
  intro a ha
  rw [List.eq_of_mem_replicate ha]
  exact h

namespace Context

theorem passage?_counted {x : Context} {t : Tree} {p : Passage} (h : x.passage? t = some p) :
    p.origin.Counted := by
  unfold passage? at h
  split at h
  · rw [← Option.some.inj h]
    exact x.lines.locate_counted _
  · obtain ⟨s, -, hs⟩ := Option.bind_eq_some_iff.mp h
    rw [← Option.some.inj hs]
    exact x.lines.locate_counted _
  · obtain ⟨s, -, hs⟩ := Option.bind_eq_some_iff.mp h
    rw [← Option.some.inj hs]
    exact gathered_counted (x.lines.locate_counted _)

theorem objectPassage?_counted {x : Context} {t : Tree} {p : Passage}
    (h : x.objectPassage? t = some p) : p.origin.Counted := by
  obtain ⟨items, -, hi⟩ := Option.bind_eq_some_iff.mp h
  rw [← Option.some.inj hi]
  intro a ha
  obtain ⟨t, -, rfl⟩ := List.mem_map.mp ha
  exact x.lines.locate_counted _

theorem cssPassage?_counted {x : Context} {t : Tree} {p : Passage} (h : x.cssPassage? t = some p) :
    p.origin.Counted := by
  unfold cssPassage? at h
  split at h
  · exact absurd h (by simp)
  · exact passage?_counted h
  · exact passage?_counted h
  · exact objectPassage?_counted h

theorem childPassage?_counted {x : Context} {t : Tree} {p : Passage}
    (h : x.childPassage? t = some p) : p.origin.Counted := by
  unfold childPassage? at h
  split at h
  · split at h
    · exact absurd h (by simp)
    · rw [← Option.some.inj h]
      exact x.lines.locate_counted _
  · exact passage?_counted h
  · exact absurd h (by simp)

theorem elementPassage?_counted {x : Context} {place : Location} (hp : place.Counted)
    {children : List Tree} {p : Passage} (h : x.elementPassage? place children = some p) :
    p.origin.Counted := by
  unfold elementPassage? at h
  split at h
  · exact passage?_counted h
  · split at h
    · exact absurd h (by simp)
    · rename_i q hq
      have hq : q ∈ children.filterMap x.childPassage? := by rw [hq]; exact List.mem_singleton_self q
      obtain ⟨t, -, ht⟩ := List.mem_filterMap.mp hq
      rw [← Option.some.inj h]
      exact childPassage?_counted ht
    · rw [← Option.some.inj h]
      exact gathered_counted hp

end Context

theorem attributePassage?_counted {x : Context} {name : String} {value : List Tree} {p : Passage}
    (h : attributePassage? x name value = some p) : p.origin.Counted := by
  unfold attributePassage? at h
  split at h
  · split at h
    · exact Context.objectPassage?_counted h
    · exact Context.cssPassage?_counted h
  · split at h
    · exact Context.passage?_counted h
    · exact absurd h (by simp)
  · exact absurd h (by simp)

/-- Styles have the text and the origin of the passage that they are read off. -/
theorem exists_of_snippet? {p : Option Passage} {form : Css.Form} {s : Css.Snippet}
    (h : p.bind (·.snippet? form) = some s) : ∃ q, p = some q ∧ s = ⟨q.text, form, q.origin⟩ := by
  obtain ⟨q, hq, hs⟩ := Option.bind_eq_some_iff.mp h
  unfold Passage.snippet? at hs
  split at hs
  · exact absurd hs (by simp)
  · exact ⟨q, hq, (Option.some.inj hs).symm⟩

/-- The styles of a component know where they come from. -/
theorem stylePlace?_counted {x : Context} {t : Tree} {p : StylePlace} {s : Css.Snippet}
    (h : stylePlace? x t = some p) (hs : p.snippet = some s) : s.origin.Counted := by
  unfold stylePlace? at h
  split at h
  · split at h
    · rw [← Option.some.inj h] at hs
      obtain ⟨q, hq, rfl⟩ := exists_of_snippet? hs
      obtain ⟨template, -, hq⟩ := Option.bind_eq_some_iff.mp hq
      exact Context.passage?_counted hq
    · exact absurd h (by simp)
  · split at h
    · rw [← Option.some.inj h] at hs
      obtain ⟨q, hq, rfl⟩ := exists_of_snippet? hs
      exact Context.elementPassage?_counted (x.lines.locate_counted _) hq
    · exact absurd h (by simp)
  · split at h
    · rw [← Option.some.inj h] at hs
      obtain ⟨q, hq, rfl⟩ := exists_of_snippet? hs
      exact attributePassage?_counted hq
    · exact absurd h (by simp)
  · exact absurd h (by simp)

theorem styleUsages_isFound (c : Component) : ∀ u ∈ c.styleUsages, u.IsFound .styles := by
  intro u hu
  obtain ⟨s, hs, hu⟩ := List.mem_flatMap.mp hu
  obtain ⟨p, hp, hs⟩ := List.mem_filterMap.mp hs
  obtain ⟨t, -, ht⟩ := List.mem_filterMap.mp hp
  exact Css.Snippet.usages_isFound (stylePlace?_counted ht hs) u hu

theorem scriptUsages_isFound (c : Component) : ∀ u ∈ c.scriptUsages, u.IsFound .scripts :=
  usagesOf_isFound (LineIndex.locate_counted _) _ c.tree

end Component

end BaselineAudit
