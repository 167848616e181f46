import BaselineAudit.Component.Value
import BaselineAudit.Proofs.Number.Integers

/-!
# Texts and numbers

An expression of strings, integers, templates, parentheses and sums has a value of one of two sorts. A sum
adds if both of its operands are numbers and puts their texts together otherwise. The search for the text
of an expression knows no sorts: it always puts together.

* `Component.evaluate?`: the value of an expression by the rules of the language.
* `Component.Value.Below`: the text that is found is at least as long as the value's, and stands for at
  least its number.
* `Component.AddsNumbers`: somewhere in the expression two numbers are added.
* `Component.text?_eq_value_iff`: exactly where no numbers are added, the text is the value's.
-/

namespace BaselineAudit.Component

open Script

/-! ## Values -/

/-- The value of an expression. -/
inductive Value where
  | string (s : String)
  | number (n : Nat)
  deriving DecidableEq, Repr

/-- A value as it is shown. -/
def Value.text : Value → String
  | .string s => s
  | .number n => n.repr

/-- The sum of two values. Numbers are added as long as the result is exact, and all else is put together
as it is shown. -/
def Value.add? : Value → Value → Option Value
  | .number m, .number n => if m + n < 2 ^ Number.precision then some (.number (m + n)) else none
  | v, w => some (.string (v.text ++ w.text))

/-- The text of a template whose expressions have values. One more piece than expressions is needed, and
every escape has a meaning. -/
def joined? : List Piece → List Value → Option String
  | [p], [] => p.cooked
  | p :: pieces, v :: values => do pure ((← p.cooked) ++ v.text ++ (← joined? pieces values))
  | _, _ => none

mutual

/-- The value of an expression of strings, exact integers, templates, parentheses and sums. -/
def evaluate? : Tree → Option Value
  | .node (.string s) _ _ => some (.string s)
  | .node (.number literal) _ _ =>
    (Script.Number.integer? literal).bind fun n =>
      if n < 2 ^ Number.precision then some (.number n) else none
  | .node (.template pieces) _ parts =>
    (evaluateAll? parts).bind fun values => (joined? pieces values).map .string
  | .node .sum _ [left, right] =>
    (evaluate? left).bind fun v => (evaluate? right).bind fun w => v.add? w
  | .node .parens _ [e] => evaluate? e
  | _ => none

/-- The values of expressions. -/
def evaluateAll? : List Tree → Option (List Value)
  | [] => some []
  | t :: ts => (evaluate? t).bind fun v => (evaluateAll? ts).bind fun values => some (v :: values)

end

/-- Somewhere in an expression two numbers are added. -/
inductive AddsNumbers : Tree → Prop
  | here {span : Span} {l r : Tree} {m n : Nat} (hl : evaluate? l = some (.number m))
      (hr : evaluate? r = some (.number n)) : AddsNumbers (.node .sum span [l, r])
  | left {span : Span} {l r : Tree} (h : AddsNumbers l) : AddsNumbers (.node .sum span [l, r])
  | right {span : Span} {l r : Tree} (h : AddsNumbers r) : AddsNumbers (.node .sum span [l, r])
  | parens {span : Span} {e : Tree} (h : AddsNumbers e) : AddsNumbers (.node .parens span [e])
  | part {pieces : List Piece} {span : Span} {parts : List Tree} {e : Tree} (he : e ∈ parts)
      (h : AddsNumbers e) : AddsNumbers (.node (.template pieces) span parts)

theorem addsNumbers_parens {span : Span} {e : Tree} :
    AddsNumbers (.node .parens span [e]) ↔ AddsNumbers e := by
  refine ⟨fun h => ?_, .parens⟩
  cases h with
  | parens h => exact h

theorem addsNumbers_template {pieces : List Piece} {span : Span} {parts : List Tree} :
    AddsNumbers (.node (.template pieces) span parts) ↔ ∃ e ∈ parts, AddsNumbers e := by
  constructor
  · intro h
    cases h with
    | part he h => exact ⟨_, he, h⟩
  · rintro ⟨e, he, h⟩
    exact .part he h

/-- A sum of which one operand is no number adds only where an operand does. -/
theorem addsNumbers_sum {span : Span} {l r : Tree} {v w : Value} (hl : evaluate? l = some v)
    (hr : evaluate? r = some w) (hsort : ∀ m n, v = .number m → w ≠ .number n) :
    AddsNumbers (.node .sum span [l, r]) ↔ AddsNumbers l ∨ AddsNumbers r := by
  constructor
  · intro h
    cases h with
    | here hl' hr' =>
      rw [hl] at hl'
      rw [hr] at hr'
      exact absurd (Option.some.inj hr') (hsort _ _ (Option.some.inj hl'))
    | left h => exact .inl h
    | right h => exact .inr h
  · rintro (h | h)
    · exact .left h
    · exact .right h

/-! ## Lengths and digits -/

/-- A text that is no shorter than a value's and stands for no smaller number. -/
structure Value.Below (v : Value) (s : String) : Prop where
  length_le : v.text.length ≤ s.length
  le_digits : ∀ n, v = .number n → n ≤ Nat.ofDigitChars 10 s.toList 0

namespace Value.Below

variable {v w : Value} {s u : String} {m n : Nat}

theorem refl (v : Value) : v.Below v.text := by
  refine ⟨Nat.le_refl _, ?_⟩
  rintro n rfl
  rw [Value.text, Nat.toList_repr, Nat.ofDigitChars_toDigits (by decide) (by decide)]

theorem of_length_le {text : String} (h : text.length ≤ s.length) : (Value.string text).Below s where
  length_le := h
  le_digits := by simp

theorem append_eq_iff (hv : v.Below s) (hw : w.Below u) :
    s ++ u = v.text ++ w.text ↔ s = v.text ∧ u = w.text := by
  constructor
  · intro h
    have hlists := congrArg String.toList h
    rw [String.toList_append, String.toList_append] at hlists
    have hlength := congrArg List.length hlists
    have hv' := hv.length_le
    have hw' := hw.length_le
    rw [List.length_append, List.length_append] at hlength
    rw [← String.length_toList, ← String.length_toList] at hv' hw'
    obtain ⟨hs, hu⟩ := List.append_inj hlists (by omega)
    exact ⟨String.toList_injective hs, String.toList_injective hu⟩
  · rintro ⟨rfl, rfl⟩
    rfl

theorem length_pos (h : (Value.number n).Below s) : 0 < s.toList.length := by
  have hpos : 0 < (Nat.toDigits 10 n).length := Nat.length_toDigits_pos
  have hle := h.length_le
  rw [Value.text, ← String.length_toList, ← String.length_toList, Nat.toList_repr] at hle
  omega

theorem lt_pow (h : (Value.number n).Below s) : n < 10 ^ s.toList.length := by
  have hle := h.length_le
  rw [Value.text, ← String.length_toList, ← String.length_toList, Nat.toList_repr] at hle
  exact (Nat.length_toDigits_le_iff (by decide) h.length_pos).mp hle

theorem add (hm : (Value.number m).Below s) (hn : (Value.number n).Below u) :
    (Value.number (m + n)).Below (s ++ u) := by
  have hs : 10 ^ 1 ≤ 10 ^ s.toList.length := Nat.pow_le_pow_right (by decide) hm.length_pos
  have hu : 10 ^ 1 ≤ 10 ^ u.toList.length := Nat.pow_le_pow_right (by decide) hn.length_pos
  constructor
  · have hlt : m + n < 10 ^ (s.toList.length + u.toList.length) := by
      calc m + n < 10 ^ s.toList.length + 10 ^ u.toList.length := Nat.add_lt_add hm.lt_pow hn.lt_pow
        _ ≤ 10 ^ s.toList.length * 10 ^ u.toList.length := Nat.add_le_mul (by omega) (by omega)
        _ = 10 ^ (s.toList.length + u.toList.length) := (Nat.pow_add ..).symm
    have hpos := hm.length_pos
    rw [Value.text, ← String.length_toList, ← String.length_toList, Nat.toList_repr,
      String.toList_append, List.length_append]
    exact (Nat.length_toDigits_le_iff (by decide) (by omega)).mpr hlt
  · rintro k hk
    obtain rfl := Value.number.inj hk
    have hm' := hm.le_digits m rfl
    have hn' := hn.le_digits n rfl
    rw [String.toList_append, Nat.ofDigitChars_append, Nat.ofDigitChars_eq_ofDigitChars_zero]
    have hle := Nat.le_mul_of_pos_left (Nat.ofDigitChars 10 s.toList 0)
      (show 0 < 10 ^ u.toList.length by omega)
    omega

/-- Digits that are put together are not the sum: the first operand would have to be zero, and then it
would have no digit. -/
theorem append_ne_add (hm : (Value.number m).Below s) (hn : (Value.number n).Below u) :
    s ++ u ≠ (m + n).repr := by
  intro h
  have hlist : s.toList ++ u.toList = Nat.toDigits 10 (m + n) := by
    rw [← String.toList_append, h, Nat.toList_repr]
  have hvalue : 10 ^ u.toList.length * Nat.ofDigitChars 10 s.toList 0 + Nat.ofDigitChars 10 u.toList 0 =
      m + n := by
    rw [← Nat.ofDigitChars_eq_ofDigitChars_zero, ← Nat.ofDigitChars_append, hlist,
      Nat.ofDigitChars_toDigits (by decide) (by decide)]
  have hm' := hm.le_digits m rfl
  have hn' := hn.le_digits n rfl
  have hu : 10 ^ 1 ≤ 10 ^ u.toList.length := Nat.pow_le_pow_right (by decide) hn.length_pos
  have hzero : Nat.ofDigitChars 10 s.toList 0 = 0 := by
    have hle := Nat.mul_le_mul_right (Nat.ofDigitChars 10 s.toList 0) hu
    omega
  obtain rfl : m = 0 := by omega
  have hlength := congrArg List.length hlist
  have hle := hn.length_le
  have hpos := hm.length_pos
  rw [Value.text, ← String.length_toList, ← String.length_toList, Nat.toList_repr] at hle
  rw [List.length_append, Nat.zero_add] at hlength
  omega

end Value.Below

/-! ## The text that is found -/

/-- What is found for an expression, against its value. -/
def Found (t : Tree) (v : Value) (s : String) : Prop := v.Below s ∧ (s = v.text ↔ ¬AddsNumbers t)

theorem found_sum {span : Span} {l r : Tree} {v w x : Value} {s u : String}
    (hl : evaluate? l = some v) (hr : evaluate? r = some w) (hadd : v.add? w = some x)
    (hs : Found l v s) (hu : Found r w u) : Found (.node .sum span [l, r]) x (s ++ u) := by
  unfold Value.add? at hadd
  split at hadd
  next m n =>
    split at hadd
    next =>
      obtain rfl := Option.some.inj hadd
      refine ⟨hs.1.add hu.1, fun h => ?_, fun h => ?_⟩
      · exact absurd h (hs.1.append_ne_add hu.1)
      · exact absurd (.here hl hr) h
    next => exact absurd hadd (by simp)
  next hsort =>
    obtain rfl := Option.some.inj hadd
    refine ⟨.of_length_le ?_, ?_⟩
    · have := hs.1.length_le
      have := hu.1.length_le
      simp only [String.length_append]
      omega
    · rw [addsNumbers_sum hl hr hsort, not_or, ← hs.2, ← hu.2]
      exact hs.1.append_eq_iff hu.1

/-- The text of a template, from what is found for its expressions. -/
theorem found_template {value : Tree → Option String}
    (hvalue : ∀ e v s, evaluate? e = some v → value e = some s → Found e v s) {pieces : List Piece}
    {parts : List Tree} {values : List Value} {s u : String} (hvalues : evaluateAll? parts = some values)
    (hjoined : joined? pieces values = some u) (hs : templateText value pieces parts = some s) :
    (Value.string u).Below s ∧ (s = u ↔ ∀ e ∈ parts, ¬AddsNumbers e) := by
  fun_induction templateText value pieces parts generalizing values s u with
  | case1 parts => exact absurd hjoined (by simp [joined?])
  | case2 p pieces ih =>
    obtain rfl := Option.some.inj hvalues
    cases pieces with
    | nil =>
      obtain rfl : p.text = s := by simpa [templateText] using hs
      have htext : p.text = u := by
        rw [Piece.text, show p.cooked = some u from hjoined]
        rfl
      subst htext
      exact ⟨.refl (.string p.text), by simp⟩
    | cons => exact absurd hjoined (by simp [joined?])
  | case3 p pieces e parts ih =>
    obtain ⟨v, hv, hvalues⟩ := Option.bind_eq_some_iff.mp hvalues
    obtain ⟨values', hvalues', hvalues⟩ := Option.bind_eq_some_iff.mp hvalues
    obtain rfl := Option.some.inj hvalues
    rw [joined?] at hjoined
    obtain ⟨cooked, hcooked, hjoined⟩ := Option.bind_eq_some_iff.mp hjoined
    obtain ⟨u', hu', hjoined⟩ := Option.bind_eq_some_iff.mp hjoined
    obtain ⟨w, hw, hs⟩ := Option.bind_eq_some_iff.mp hs
    obtain ⟨s', hs', hs⟩ := Option.bind_eq_some_iff.mp hs
    obtain rfl := Option.some.inj hjoined
    obtain rfl := Option.some.inj hs
    obtain ⟨hbelow, hiff⟩ := hvalue e v w hv hw
    obtain ⟨hbelow', hiff'⟩ := ih hvalues' hu' hs'
    have htext : p.text = cooked := by
      rw [Piece.text, hcooked]
      rfl
    rw [htext]
    have hpair := hbelow.append_eq_iff hbelow'
    refine ⟨.of_length_le ?_, ?_⟩
    · have := hbelow.length_le
      have := hbelow'.length_le
      simp only [String.length_append, Value.text] at *
      omega
    · rw [List.forall_mem_cons, ← hiff, ← hiff', String.append_assoc, String.append_assoc]
      simpa [Value.text] using hpair

/-- The sorts are followed through the whole expression. -/
theorem found_of_textWithin {b : Bindings} {depth : Nat} {t : Tree} {v : Value} {s : String}
    (hv : evaluate? t = some v) (hs : textWithin b depth t = some s) : Found t v s := by
  induction depth generalizing t v s with
  | zero => exact absurd hs (by simp [textWithin])
  | succ depth ih =>
    unfold evaluate? at hv
    split at hv
    next =>
      obtain rfl := Option.some.inj hv
      obtain rfl := Option.some.inj hs
      refine ⟨.refl _, ?_⟩
      simp only [Value.text, true_iff]
      nofun
    next literal _ _ =>
      obtain ⟨n, hn, hv⟩ := Option.bind_eq_some_iff.mp hv
      split at hv
      next hlt =>
        obtain rfl := Option.some.inj hv
        obtain rfl := Option.some.inj hs
        rw [Found, Script.Number.text_of_integer? hn hlt]
        refine ⟨.refl (.number n), ?_⟩
        simp only [Value.text, true_iff]
        nofun
      next => exact absurd hv (by simp)
    next pieces span parts =>
      obtain ⟨values, hvalues, hv⟩ := Option.bind_eq_some_iff.mp hv
      obtain ⟨u, hjoined, rfl⟩ := Option.map_eq_some_iff.mp hv
      obtain ⟨hbelow, hiff⟩ := found_template (fun _ _ _ => ih) hvalues hjoined hs
      refine ⟨hbelow, ?_⟩
      rw [addsNumbers_template]
      simpa [Value.text] using hiff
    next span l r =>
      obtain ⟨x, hx, hv⟩ := Option.bind_eq_some_iff.mp hv
      obtain ⟨y, hy, hadd⟩ := Option.bind_eq_some_iff.mp hv
      obtain ⟨p, hp, hs⟩ := Option.bind_eq_some_iff.mp hs
      obtain ⟨q, hq, hs⟩ := Option.bind_eq_some_iff.mp hs
      obtain rfl := Option.some.inj hs
      exact found_sum hx hy hadd (ih hx hp) (ih hy hq)
    next span e =>
      rw [Found, addsNumbers_parens]
      exact ih hv hs
    next => exact absurd hv (by simp)

/-- The text that is found for an expression is its value as it is shown if and only if nowhere in it are
two numbers added. -/
theorem text?_eq_value_iff (b : Bindings) {t : Tree} {v : Value} {s : String}
    (hv : evaluate? t = some v) (hs : text? b t = some s) : s = v.text ↔ ¬AddsNumbers t :=
  (found_of_textWithin hv hs).2

/-- Two numbers that are added inside a template, behind a number that is put in front of a text. -/
theorem text?_eq_value_iff_nested :
    let number : String → Tree := fun s => .leaf (.number s) ⟨0, 0⟩
    let inner : Tree := .node .sum ⟨0, 0⟩ [number "1", number "0x2"]
    let part : Tree := .node (.template [⟨some "b", "b"⟩, ⟨some "c", "c"⟩]) ⟨0, 0⟩ [inner]
    let sum : Tree := .node .sum ⟨0, 0⟩ [number "4", part]
    evaluate? sum = some (.string "4b3c") ∧ text? [] sum = some "4b12c" ∧
      ("4b12c" = "4b3c" ↔ ¬AddsNumbers sum) := by
  intro number inner part sum
  have hv : evaluate? sum = some (.string "4b3c") := by decide +kernel
  have hs : text? [] sum = some "4b12c" := by decide +kernel
  exact ⟨hv, hs, text?_eq_value_iff [] hv hs⟩

/-- Two numbers have a sum, and the digits of both are found. -/
theorem text?_one_and_two :
    let sum : Tree := .node .sum ⟨0, 0⟩ [.leaf (.number "1") ⟨0, 0⟩, .leaf (.number "2") ⟨0, 0⟩]
    evaluate? sum = some (.number 3) ∧ text? [] sum = some "12" := by
  decide +kernel

end BaselineAudit.Component
