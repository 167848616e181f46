import BaselineAudit.Component.Value

/-!
# Constants of longer scripts

What stands at the end of a script changes nothing for the names that are bound in front of it: the
first constant of a name counts.

* `Bindings.Extends`: one set of constants keeps the values of another.
* `textWithin_of_extends`, `objectWithin_of_extends`: so it keeps what expressions stand for, at every
  depth of the search.
* `Bindings.ofScript_append`: the constants of a script with further statements.
* `resolution_of_longer_script`: names, texts and objects that a script shows are shown by every longer
  one.
-/

namespace BaselineAudit.Component

open Script

/-- Each name has the value that it has in `b`, if it has one there. -/
def Bindings.Extends (b' b : Bindings) : Prop :=
  ∀ name e, b.get? name = some e → b'.get? name = some e

section

variable {b b' : Bindings} (hb : b'.Extends b)

/-- A template keeps its text if the expressions in it keep theirs. -/
theorem templateText_of_imp {value value' : Tree → Option String}
    (hvalue : ∀ e u, value e = some u → value' e = some u) {pieces : List Piece} {parts : List Tree}
    {s : String} (h : templateText value pieces parts = some s) :
    templateText value' pieces parts = some s := by
  fun_induction templateText value pieces parts generalizing s with
  | case1 parts => exact h
  | case2 p pieces ih =>
    obtain ⟨v, hv, h⟩ := Option.bind_eq_some_iff.mp h
    rw [templateText, ih hv]
    exact h
  | case3 p pieces e parts ih =>
    obtain ⟨u, hu, h⟩ := Option.bind_eq_some_iff.mp h
    obtain ⟨v, hv, h⟩ := Option.bind_eq_some_iff.mp h
    rw [templateText, hvalue e u hu, ih hv]
    exact h

include hb

theorem textWithin_of_extends {depth : Nat} {t : Tree} {s : String}
    (h : textWithin b depth t = some s) : textWithin b' depth t = some s := by
  induction depth generalizing t s with
  | zero => exact absurd h (by simp [textWithin])
  | succ depth ih =>
    unfold textWithin at h ⊢
    split at h
    next => exact h
    next => exact h
    next => exact templateText_of_imp (fun e u hu => ih hu) h
    next left right =>
      obtain ⟨u, hu, h⟩ := Option.bind_eq_some_iff.mp h
      obtain ⟨v, hv, h⟩ := Option.bind_eq_some_iff.mp h
      simp only [ih hu, ih hv]
      exact h
    next => exact ih h
    next => exact ih h
    next => exact ih h
    next name _ _ =>
      obtain ⟨e, he, h⟩ := Option.bind_eq_some_iff.mp h
      simp only [hb name e he]
      exact ih h
    next => exact absurd h (by simp)

theorem objectWithin_of_extends {depth : Nat} {t : Tree} {items : List Tree}
    (h : objectWithin b depth t = some items) : objectWithin b' depth t = some items := by
  induction depth generalizing t with
  | zero => exact absurd h (by simp [objectWithin])
  | succ depth ih =>
    unfold objectWithin at h ⊢
    split at h
    next => exact h
    next => exact ih h
    next => exact ih h
    next name _ _ =>
      obtain ⟨e, he, h⟩ := Option.bind_eq_some_iff.mp h
      simp only [hb name e he]
      exact ih h
    next => exact absurd h (by simp)

end

namespace Bindings

theorem get?_append (b c : Bindings) (name : String) :
    get? (b ++ c) name = (b.get? name).or (c.get? name) := List.lookup_append

theorem extends_append (b c : Bindings) : Extends (b ++ c) b := by
  intro name e h
  rw [get?_append, h, Option.some_or]

/-- The constants of the statements of a script stand one behind the other. -/
theorem ofScript_append (shape : Shape) (span : Span) (statements more : List Tree) :
    ofScript (.node shape span (statements ++ more)) =
      ofScript (.node shape span statements) ++ ofScript (.node shape span more) :=
  List.flatMap_append

end Bindings

/-- A script followed by further statements. A name has the value that it has in the script, and only
where it has none one of the statements behind it can give it one. Whatever text or object an expression
stands for by the constants of the script, it stands for by those of the longer one. -/
theorem resolution_of_longer_script (shape : Shape) (span : Span) (statements more : List Tree) :
    let script := Bindings.ofScript (.node shape span statements)
    let longer := Bindings.ofScript (.node shape span (statements ++ more))
    (∀ name, longer.get? name =
        (script.get? name).or ((Bindings.ofScript (.node shape span more)).get? name)) ∧
      (∀ name e, script.get? name = some e → longer.get? name = some e) ∧
      (∀ t s, text? script t = some s → text? longer t = some s) ∧
      ∀ t items, object? script t = some items → object? longer t = some items := by
  intro script longer
  have happend : longer = script ++ Bindings.ofScript (.node shape span more) :=
    Bindings.ofScript_append shape span statements more
  have hextends : longer.Extends script := by
    rw [happend]
    exact Bindings.extends_append _ _
  refine ⟨fun name => ?_, hextends, fun t s h => ?_, fun t items h => ?_⟩
  · rw [happend, Bindings.get?_append]
  · exact textWithin_of_extends hextends h
  · exact objectWithin_of_extends hextends h

/-- A constant that is defined by another one, in front of a function with constants of the same
names. -/
theorem resolution_of_longer_script_shadowed :
    let name : String → Tree := fun s => .leaf (.reference s) ⟨0, 0⟩
    let literal : String → Tree := fun s => .leaf (.string s) ⟨0, 0⟩
    let constant : String → Tree → Tree := fun s value => .node (.variableList true) ⟨0, 0⟩
      [.node (.declarator true) ⟨0, 0⟩ [.leaf (.binding s) ⟨0, 0⟩, value]]
    let statements := [constant "unit" (literal "px"), constant "gap" (name "unit"),
      constant "style" (.node (.object false) ⟨0, 0⟩ [])]
    let more : List Tree := [.node .function ⟨0, 0⟩ [.node .body ⟨0, 0⟩
      [constant "unit" (literal "em"), constant "gap" (literal "1px"), constant "style" (name "gap")]]]
    let longer := Bindings.ofScript (.node .script ⟨0, 0⟩ (statements ++ more))
    (Bindings.ofScript (.node .script ⟨0, 0⟩ more)).get? "gap" = some (literal "1px") ∧
      longer.get? "gap" = some (name "unit") ∧ text? longer (name "gap") = some "px" ∧
      object? longer (name "style") = some [] := by
  intro name literal constant statements more longer
  obtain ⟨-, hget, htext, hobject⟩ := resolution_of_longer_script .script ⟨0, 0⟩ statements more
  exact ⟨rfl, hget "gap" (name "unit") rfl, htext (name "gap") "px" rfl,
    hobject (name "style") [] rfl⟩

end BaselineAudit.Component
