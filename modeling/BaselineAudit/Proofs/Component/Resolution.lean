import BaselineAudit.Component.Value
import Mathlib.Logic.Relation

/-!
# What expressions stand for

The text or object that an expression stands for is searched for up to a depth. The rules by which it is
found have no bound: the search finds what they derive, as long as no part of it is too deep.

* `Component.Shows`: the rules for texts, with the depth of a derivation.
* `Component.textWithin_eq_some_iff`: a bound admits the derivations that are less deep.
* `Component.Needs`: which expressions the text of another one is made of. There is no text where they
  come back to themselves (`Component.not_shows_of_cycle`).
* `Component.Steps`, `Component.objectWithin_eq_some_iff`: the same for objects, by the steps that lead to
  them.
* `Component.text?_and_object?_iff`: what the search finds in the end.
* `Component.text?_of_concatenates`: literals that are put together have a text unless they are nested too
  deeply, although no constant is looked up.
-/

namespace BaselineAudit.Component

open Script Relation

/-! ## Rules for texts -/

mutual

/-- The text that an expression stands for, by rules without a bound. The depth counts the steps from the
expression to the deepest literal. -/
inductive Shows (b : Bindings) : Tree → String → (depth : Nat) → Prop
  | string {value : String} {span : Span} {children : List Tree} :
      Shows b (.node (.string value) span children) value 0
  | number {literal : String} {span : Span} {children : List Tree} :
      Shows b (.node (.number literal) span children) (Number.text literal) 0
  | template {pieces : List Piece} {span : Span} {parts : List Tree} {text : String} {depth : Nat}
      (h : ShowsAll b pieces parts text depth) :
      Shows b (.node (.template pieces) span parts) text depth
  | sum {span : Span} {l r : Tree} {u v : String} {m n : Nat} (left : Shows b l u m)
      (right : Shows b r v n) : Shows b (.node .sum span [l, r]) (u ++ v) (max m n + 1)
  | wrapped {shape : Shape} {span : Span} {e : Tree} {types : List Tree} {text : String} {depth : Nat}
      (hshape : shape ∈ [.parens, .cast, .nonNull]) (h : Shows b e text depth) :
      Shows b (.node shape span (e :: types)) text (depth + 1)
  | reference {name : String} {span : Span} {children : List Tree} {e : Tree} {text : String}
      {depth : Nat} (hbound : b.get? name = some e) (h : Shows b e text depth) :
      Shows b (.node (.reference name) span children) text (depth + 1)

/-- The text of a template, from its pieces and the expressions between them. -/
inductive ShowsAll (b : Bindings) : List Piece → List Tree → String → (depth : Nat) → Prop
  | nil {parts : List Tree} : ShowsAll b [] parts "" 0
  | piece {p : Piece} {pieces : List Piece} {text : String} {depth : Nat}
      (rest : ShowsAll b pieces [] text depth) : ShowsAll b (p :: pieces) [] (p.text ++ text) depth
  | expression {p : Piece} {pieces : List Piece} {e : Tree} {parts : List Tree} {u v : String}
      {m n : Nat} (h : Shows b e u m) (rest : ShowsAll b pieces parts v n) :
      ShowsAll b (p :: pieces) (e :: parts) (p.text ++ u ++ v) (max (m + 1) n)

end

section

variable {b : Bindings}

theorem showsAll_of_templateText {value : Tree → Option String} {n : Nat}
    (hvalue : ∀ e u, value e = some u → ∃ m < n, Shows b e u m) {pieces : List Piece}
    {parts : List Tree} {s : String} (h : templateText value pieces parts = some s) :
    ∃ m ≤ n, ShowsAll b pieces parts s m := by
  fun_induction templateText value pieces parts generalizing s with
  | case1 parts =>
    obtain rfl := Option.some.inj h
    exact ⟨0, Nat.zero_le n, .nil⟩
  | case2 p pieces ih =>
    obtain ⟨v, hv, h⟩ := Option.bind_eq_some_iff.mp h
    obtain rfl := Option.some.inj h
    obtain ⟨m, hm, hrest⟩ := ih hv
    exact ⟨m, hm, .piece hrest⟩
  | case3 p pieces e parts ih =>
    obtain ⟨u, hu, h⟩ := Option.bind_eq_some_iff.mp h
    obtain ⟨v, hv, h⟩ := Option.bind_eq_some_iff.mp h
    obtain rfl := Option.some.inj h
    obtain ⟨m, hm, he⟩ := hvalue e u hu
    obtain ⟨k, hk, hrest⟩ := ih hv
    exact ⟨max (m + 1) k, by omega, .expression he hrest⟩

theorem templateText_of_showsAll {value : Tree → Option String} {n : Nat}
    (hvalue : ∀ e u m, m < n → Shows b e u m → value e = some u) {pieces : List Piece}
    {parts : List Tree} {s : String} {depth : Nat} (hdepth : depth ≤ n)
    (h : ShowsAll b pieces parts s depth) : templateText value pieces parts = some s := by
  induction pieces generalizing parts s depth with
  | nil =>
    cases h
    rfl
  | cons p pieces ih =>
    cases h with
    | piece rest =>
      rw [templateText, ih hdepth rest]
      rfl
    | expression h rest =>
      rw [templateText, hvalue _ _ _ (by omega) h, ih (by omega) rest]
      rfl

/-- What is found within a bound is derived by the rules. -/
theorem shows_of_textWithin {n : Nat} {t : Tree} {s : String} (h : textWithin b n t = some s) :
    ∃ depth < n, Shows b t s depth := by
  induction n generalizing t s with
  | zero => exact absurd h (by simp [textWithin])
  | succ n ih =>
    have below : ∀ {e : Tree}, textWithin b n e = some s →
        ∃ depth, depth + 1 < n + 1 ∧ Shows b e s depth := by
      intro e he
      obtain ⟨depth, hdepth, he⟩ := ih he
      exact ⟨depth, by omega, he⟩
    unfold textWithin at h
    split at h
    next =>
      obtain rfl := Option.some.inj h
      exact ⟨0, by omega, .string⟩
    next =>
      obtain rfl := Option.some.inj h
      exact ⟨0, by omega, .number⟩
    next =>
      obtain ⟨m, hm, hparts⟩ := showsAll_of_templateText (fun e u => ih) h
      exact ⟨m, by omega, .template hparts⟩
    next l r =>
      obtain ⟨u, hu, h⟩ := Option.bind_eq_some_iff.mp h
      obtain ⟨v, hv, h⟩ := Option.bind_eq_some_iff.mp h
      obtain rfl := Option.some.inj h
      obtain ⟨i, hi, hl⟩ := ih hu
      obtain ⟨j, hj, hr⟩ := ih hv
      exact ⟨max i j + 1, by omega, .sum hl hr⟩
    next =>
      obtain ⟨depth, hdepth, he⟩ := below h
      exact ⟨depth + 1, hdepth, .wrapped (by simp) he⟩
    next =>
      obtain ⟨depth, hdepth, he⟩ := below h
      exact ⟨depth + 1, hdepth, .wrapped (by simp) he⟩
    next =>
      obtain ⟨depth, hdepth, he⟩ := below h
      exact ⟨depth + 1, hdepth, .wrapped (by simp) he⟩
    next =>
      obtain ⟨e, hbound, h⟩ := Option.bind_eq_some_iff.mp h
      obtain ⟨depth, hdepth, he⟩ := below h
      exact ⟨depth + 1, hdepth, .reference hbound he⟩
    next => exact absurd h (by simp)

/-- What the rules derive is found within every bound that is larger than the depth. -/
theorem Shows.textWithin_eq {n : Nat} {t : Tree} {s : String} {depth : Nat} (hdepth : depth < n)
    (h : Shows b t s depth) : textWithin b n t = some s := by
  -- on the bound: the derivation is part of a mutual family, and the parts of a template share one bound
  induction n generalizing t s depth with
  | zero => exact absurd hdepth (Nat.not_lt_zero depth)
  | succ n ih =>
    cases h with
    | string => rfl
    | number => rfl
    | template h => exact templateText_of_showsAll (fun e u m => ih) (by omega) h
    | sum left right =>
      simp only [textWithin, ih (by omega) left, ih (by omega) right]
      rfl
    | wrapped hshape h =>
      have he := ih (by omega) h
      simp only [List.mem_cons, List.not_mem_nil, or_false] at hshape
      rcases hshape with rfl | rfl | rfl <;> exact he
    | reference hbound h =>
      simp only [textWithin, hbound]
      exact ih (by omega) h

theorem textWithin_eq_some_iff {n : Nat} {t : Tree} {s : String} :
    textWithin b n t = some s ↔ ∃ depth < n, Shows b t s depth := by
  refine ⟨shows_of_textWithin, ?_⟩
  rintro ⟨depth, hdepth, h⟩
  exact h.textWithin_eq hdepth

theorem textWithin_mono {m n : Nat} (hmn : m ≤ n) {t : Tree} {s : String}
    (h : textWithin b m t = some s) : textWithin b n t = some s := by
  obtain ⟨depth, hdepth, hshows⟩ := shows_of_textWithin h
  exact hshows.textWithin_eq (by omega)

/-! ## Cycles -/

/-- The text of one expression is made of the text of another one. -/
inductive Needs (b : Bindings) : Tree → Tree → Prop
  | part {pieces : List Piece} {span : Span} {parts : List Tree} {e : Tree}
      (h : e ∈ parts.take pieces.length) : Needs b (.node (.template pieces) span parts) e
  | left {span : Span} {l r : Tree} : Needs b (.node .sum span [l, r]) l
  | right {span : Span} {l r : Tree} : Needs b (.node .sum span [l, r]) r
  | wrapped {shape : Shape} {span : Span} {e : Tree} {types : List Tree}
      (hshape : shape ∈ [.parens, .cast, .nonNull]) : Needs b (.node shape span (e :: types)) e
  | reference {name : String} {span : Span} {children : List Tree} {e : Tree}
      (hbound : b.get? name = some e) : Needs b (.node (.reference name) span children) e

theorem ShowsAll.of_mem {pieces : List Piece} {parts : List Tree} {s : String} {depth : Nat}
    (h : ShowsAll b pieces parts s depth) {e : Tree} (he : e ∈ parts.take pieces.length) :
    ∃ u, ∃ m < depth, Shows b e u m := by
  induction pieces generalizing parts s depth with
  | nil => simp at he
  | cons p pieces ih =>
    cases h with
    | piece rest => simp at he
    | expression h rest =>
      rw [List.length_cons, List.take_succ_cons] at he
      rcases List.mem_cons.mp he with rfl | he
      · exact ⟨_, _, by omega, h⟩
      · obtain ⟨u, m, hm, hu⟩ := ih rest he
        exact ⟨u, m, by omega, hu⟩

/-- What a text is made of is derived less deeply. -/
theorem Shows.needs {t e : Tree} {s : String} {depth : Nat} (h : Shows b t s depth)
    (he : Needs b t e) : ∃ u, ∃ m < depth, Shows b e u m := by
  cases he with
  | part he =>
    cases h with
    | template h => exact h.of_mem he
    | wrapped hshape => simp at hshape
  | left =>
    cases h with
    | sum left right => exact ⟨_, _, by omega, left⟩
    | wrapped hshape => simp at hshape
  | right =>
    cases h with
    | sum left right => exact ⟨_, _, by omega, right⟩
    | wrapped hshape => simp at hshape
  | wrapped hshape =>
    cases h with
    | wrapped _ h => exact ⟨_, _, Nat.lt_succ_self _, h⟩
    | _ => simp at hshape
  | reference hbound =>
    cases h with
    | reference hbound' h =>
      obtain rfl := Option.some.inj (hbound.symm.trans hbound')
      exact ⟨_, _, Nat.lt_succ_self _, h⟩
    | wrapped hshape => simp at hshape

theorem Shows.transGen_needs {t e : Tree} {s : String} {depth : Nat} (h : Shows b t s depth)
    (he : TransGen (Needs b) t e) : ∃ u, ∃ m < depth, Shows b e u m := by
  induction he with
  | single he => exact h.needs he
  | tail _ he ih =>
    obtain ⟨u, m, hm, hu⟩ := ih
    obtain ⟨v, k, hk, hv⟩ := hu.needs he
    exact ⟨v, k, by omega, hv⟩

/-- A text that is made of itself cannot be derived: the derivation would have no end. -/
theorem not_shows_of_cycle {t e : Tree} (hreach : ReflTransGen (Needs b) t e)
    (hcycle : TransGen (Needs b) e e) (s : String) (depth : Nat) : ¬Shows b t s depth := by
  have hself : ∀ m u, ¬Shows b e u m := by
    intro m
    induction m using Nat.strongRecOn with
    | _ m ih =>
      intro u hu
      obtain ⟨v, k, hk, hv⟩ := hu.transGen_needs hcycle
      exact ih k hk v hv
  intro h
  rcases reflTransGen_iff_eq_or_transGen.mp hreach with rfl | hreach
  · exact hself _ _ h
  · obtain ⟨u, m, -, hu⟩ := h.transGen_needs hreach
    exact hself m u hu

/-! ## Objects -/

/-- One step from an expression to the one that it stands for, where an object is searched for. -/
inductive Step (b : Bindings) : Tree → Tree → Prop
  | wrapped {shape : Shape} {span : Span} {e : Tree} {types : List Tree}
      (hshape : shape ∈ [.parens, .cast]) : Step b (.node shape span (e :: types)) e
  | reference {name : String} {span : Span} {children : List Tree} {e : Tree}
      (hbound : b.get? name = some e) : Step b (.node (.reference name) span children) e

/-- A number of steps. -/
inductive Steps (b : Bindings) : (count : Nat) → Tree → Tree → Prop
  | refl (t : Tree) : Steps b 0 t t
  | head {t u v : Tree} {n : Nat} (h : Step b t u) (rest : Steps b n u v) : Steps b (n + 1) t v

/-- The bound admits the objects that fewer steps lead to. -/
theorem objectWithin_eq_some_iff {n : Nat} {t : Tree} {items : List Tree} :
    objectWithin b n t = some items ↔
      ∃ k < n, ∃ comma span, Steps b k t (.node (.object comma) span items) := by
  constructor
  · intro h
    induction n generalizing t with
    | zero => exact absurd h (by simp [objectWithin])
    | succ n ih =>
      have below : ∀ {e : Tree}, Step b t e → objectWithin b n e = some items →
          ∃ k < n + 1, ∃ comma span, Steps b k t (.node (.object comma) span items) := by
        intro e hstep he
        obtain ⟨k, hk, comma, span, hsteps⟩ := ih he
        exact ⟨k + 1, by omega, comma, span, .head hstep hsteps⟩
      unfold objectWithin at h
      split at h
      next comma span _ =>
        obtain rfl := Option.some.inj h
        exact ⟨0, Nat.succ_pos n, comma, span, .refl _⟩
      next => exact below (.wrapped (by simp)) h
      next => exact below (.wrapped (by simp)) h
      next =>
        obtain ⟨e, hbound, h⟩ := Option.bind_eq_some_iff.mp h
        exact below (.reference hbound) h
      next => exact absurd h (by simp)
  · rintro ⟨k, hk, comma, span, hsteps⟩
    induction n generalizing t k with
    | zero => exact absurd hk (Nat.not_lt_zero k)
    | succ n ih =>
      cases hsteps with
      | refl => rfl
      | head hstep rest =>
        have he := ih _ (Nat.lt_of_succ_lt_succ hk) rest
        cases hstep with
        | wrapped hshape =>
          simp only [List.mem_cons, List.not_mem_nil, or_false] at hshape
          rcases hshape with rfl | rfl <;> exact he
        | reference hbound =>
          simp only [objectWithin, hbound]
          exact he

end

/-! ## The search -/

/-- The search for a text finds what the rules derive with no literal more than `maxDepth` steps below the
expression. A search that starts at a smaller depth finds the same, and there is nothing to be found where
constants are defined by themselves. The search for an object finds the ones that at most `maxDepth` steps
lead to. -/
theorem text?_and_object?_iff (b : Bindings) (t : Tree) :
    (∀ s, text? b t = some s ↔ ∃ depth ≤ maxDepth, Shows b t s depth) ∧
      (∀ start start' s, start' ≤ start → textWithin b (maxDepth + 1 - start) t = some s →
        textWithin b (maxDepth + 1 - start') t = some s) ∧
      (∀ e, ReflTransGen (Needs b) t e → TransGen (Needs b) e e → text? b t = none) ∧
      ∀ items, object? b t = some items ↔
        ∃ n ≤ maxDepth, ∃ comma span, Steps b n t (.node (.object comma) span items) := by
  refine ⟨fun s => ?_, fun start start' s hle h => ?_, fun e hreach hcycle => ?_, fun items => ?_⟩
  · simp only [text?, textWithin_eq_some_iff, Nat.lt_succ_iff]
  · exact textWithin_mono (by omega) h
  · refine Option.eq_none_iff_forall_ne_some.mpr fun s h => ?_
    obtain ⟨depth, -, hshows⟩ := shows_of_textWithin h
    exact not_shows_of_cycle hreach hcycle s depth hshows
  · simp only [object?, objectWithin_eq_some_iff, Nat.lt_succ_iff]

/-- Two constants that are defined by each other, and a sum with one of them. Its other operand is found
also from a greater depth. -/
theorem text?_and_object?_iff_loop :
    let name : String → Tree := fun s => .leaf (.reference s) ⟨0, 0⟩
    let literal : Tree := .leaf (.string "a") ⟨0, 0⟩
    let loop := [("target", name "loop"), ("loop", name "target")]
    text? loop (.node .sum ⟨0, 0⟩ [literal, name "target"]) = none ∧
      textWithin loop (maxDepth + 1 - 8) literal = some "a" ∧
      textWithin loop (maxDepth + 1 - 3) literal = some "a" := by
  intro name literal loop
  obtain ⟨-, -, hcycle, -⟩ :=
    text?_and_object?_iff loop (.node .sum ⟨0, 0⟩ [literal, name "target"])
  obtain ⟨-, hdepth, -, -⟩ := text?_and_object?_iff loop literal
  refine ⟨?_, rfl, hdepth 8 3 "a" (by decide) rfl⟩
  exact hcycle (name "target") (.single .right) (.tail (.single (.reference rfl)) (.reference rfl))

/-! ## Literals that are put together -/

/-- An expression of literal texts, sums and parentheses, the literals in order and how deeply they are
nested. -/
inductive Concatenates : Tree → List String → (depth : Nat) → Prop
  | string {value : String} {span : Span} {children : List Tree} :
      Concatenates (.node (.string value) span children) [value] 0
  | sum {span : Span} {l r : Tree} {us vs : List String} {m n : Nat} (left : Concatenates l us m)
      (right : Concatenates r vs n) : Concatenates (.node .sum span [l, r]) (us ++ vs) (max m n + 1)
  | parens {span : Span} {e : Tree} {us : List String} {n : Nat} (h : Concatenates e us n) :
      Concatenates (.node .parens span [e]) us (n + 1)

namespace Concatenates

variable {b : Bindings} {t : Tree} {literals : List String} {depth : Nat}

theorem shows (h : Concatenates t literals depth) : Shows b t (String.join literals) depth := by
  induction h with
  | string =>
    rw [String.join_cons, String.join_nil, String.append_empty]
    exact .string
  | sum _ _ left right =>
    rw [String.join_append]
    exact .sum left right
  | parens _ ih => exact .wrapped (by simp) ih

/-- There is no other derivation, so none that is less deep. -/
theorem depth_eq (h : Concatenates t literals depth) {s : String} {n : Nat} (hs : Shows b t s n) :
    n = depth := by
  induction h generalizing s n with
  | string =>
    cases hs with
    | string => rfl
    | wrapped hshape => simp at hshape
  | sum _ _ left right =>
    cases hs with
    | sum hl hr => rw [left hl, right hr]
    | wrapped hshape => simp at hshape
  | parens _ ih =>
    cases hs with
    | wrapped _ h => rw [ih h]

end Concatenates

/-- Literals that are put together have their text in order, whatever the constants are, unless one of them
is more than `maxDepth` sums and parentheses deep: then there is none, although no constant is looked up. -/
theorem text?_of_concatenates (b : Bindings) {t : Tree} {literals : List String} {depth : Nat}
    (h : Concatenates t literals depth) :
    text? b t = if depth ≤ maxDepth then some (String.join literals) else none := by
  split
  next hdepth => exact h.shows.textWithin_eq (Nat.lt_succ_of_le hdepth)
  next hdepth =>
    refine Option.eq_none_iff_forall_ne_some.mpr fun s hs => ?_
    obtain ⟨n, hn, hshows⟩ := shows_of_textWithin hs
    rw [h.depth_eq hshows] at hn
    exact hdepth (Nat.le_of_lt_succ hn)

/-- A literal in front of a sum in parentheses. -/
theorem text?_of_concatenates_parens :
    let literal : String → Tree := fun s => .leaf (.string s) ⟨0, 0⟩
    let inner : Tree := .node .parens ⟨0, 0⟩ [.node .sum ⟨0, 0⟩ [literal "b", literal "c"]]
    let sum : Tree := .node .sum ⟨0, 0⟩ [literal "a", inner]
    Concatenates sum ["a", "b", "c"] 3 ∧ text? [] sum = some "abc" := by
  intro literal inner sum
  have h : Concatenates sum ["a", "b", "c"] 3 := .sum .string (.parens (.sum .string .string))
  exact ⟨h, text?_of_concatenates [] h⟩

/-- Ten literals in a row: the first one is nine sums deep. -/
theorem text?_ten_literals :
    let literal : Tree := .leaf (.string "a") ⟨0, 0⟩
    let sum := (List.replicate 9 literal).foldl (fun l r => .node .sum ⟨0, 0⟩ [l, r]) literal
    Concatenates sum (List.replicate 10 "a") 9 ∧ text? [] sum = none := by
  intro literal sum
  refine ⟨?_, rfl⟩
  exact .sum (.sum (.sum (.sum (.sum (.sum (.sum (.sum (.sum .string .string) .string) .string)
    .string) .string) .string) .string) .string) .string

end BaselineAudit.Component
