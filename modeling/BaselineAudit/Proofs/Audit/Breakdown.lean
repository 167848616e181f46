import BaselineAudit.Proofs.Audit.Acceptance
import BaselineAudit.Proofs.Text.Strict

/-!
# Breakdowns of the source

The source of statuses can break down for some keys. An audit that asks for one of them has no report
of its own, however much of the text was judged before; all others are as if it never broke down.

* `Checker.breakingOn`: a checker whose source also breaks down for the keys in a set.
* `Checker.run_breakingOn`: an audit by it, in terms of the keys that the text uses.
* `Checker.analyze_breakingOn`: the whole of it, with the places where an audit could fail otherwise.
-/

namespace BaselineAudit

/-- The keys that an audit of a text asks for, in order. -/
def Route.examined (code : String) (r : Route) : List String :=
  (r.parts code).flatten.map Usage.key

namespace Checker

/-- The same checker, except that its source breaks down for the keys in a set. -/
def breakingOn (c : Checker) (keys : String → Prop) [DecidablePred keys] : Checker :=
  { c with resolver := fun feature key => if keys key then .breakdown else c.resolver feature key }

section

variable (c : Checker) {keys : String → Prop} [DecidablePred keys]

theorem ask_breakingOn_of_notMem {key : String} (h : ¬keys key) :
    (c.breakingOn keys).ask key = c.ask key := if_neg h

theorem breaks_breakingOn (key : String) :
    (c.breakingOn keys).breaks key = (decide (keys key) || c.breaks key) := by
  by_cases h : keys key
  · have hask : (c.breakingOn keys).ask key = .breakdown := if_pos h
    simp [breaks, hask, h]
  · simp [breaks, c.ask_breakingOn_of_notMem h, h]

theorem status?_breakingOn {key : String} (h : ¬keys key) :
    (c.breakingOn keys).status? key = c.status? key := by
  simp only [status?, c.ask_breakingOn_of_notMem h]

/-- Usages with no key in the set have the same issues. -/
theorem issuesOf_breakingOn {us : List Usage} (h : ∀ u ∈ us, ¬keys u.key) :
    (c.breakingOn keys).issuesOf us = c.issuesOf us := by
  have accepts : ∀ u ∈ us, (c.breakingOn keys).accepts u.key = c.accepts u.key := by
    intro u hu
    simp only [Checker.accepts, level, c.status?_breakingOn (h u hu)]
    rfl
  have hfilter : (us.filter fun u => !(c.breakingOn keys).accepts u.key) =
      us.filter fun u => !c.accepts u.key :=
    List.filter_congr fun u hu => by rw [accepts u hu]
  rw [issuesOf, issuesOf, reported, reported, hfilter]
  refine List.map_congr_left fun u hu => ?_
  have hu : u ∈ us := List.mem_of_mem_filter (mem_of_mem_firstOf hu)
  simp only [issueOf, c.status?_breakingOn (h u hu)]
  rfl

theorem breaksOn_breakingOn_of_mem {parts : List (List Usage)} {key : String}
    (hmem : key ∈ parts.flatten.map Usage.key) (h : keys key) :
    (c.breakingOn keys).breaksOn parts = true := by
  obtain ⟨u, hu, rfl⟩ := List.mem_map.mp hmem
  obtain ⟨us, hus, hu⟩ := List.mem_flatten.mp hu
  refine List.any_eq_true.mpr ⟨us, hus, List.any_eq_true.mpr ⟨u, hu, ?_⟩⟩
  rw [breaks_breakingOn, decide_eq_true h, Bool.true_or]

theorem breaksOn_breakingOn {parts : List (List Usage)}
    (h : ∀ key ∈ parts.flatten.map Usage.key, ¬keys key) :
    (c.breakingOn keys).breaksOn parts = c.breaksOn parts := by
  unfold breaksOn
  rw [Bool.eq_iff_iff]
  simp only [List.any_eq_true, breaks_breakingOn, Bool.or_eq_true, decide_eq_true_eq]
  refine exists_congr fun us => and_congr_right fun hus => exists_congr fun u =>
    and_congr_right fun hu => or_iff_right ?_
  exact h _ (List.mem_map_of_mem (List.mem_flatten_of_mem hus hu))

theorem reportOf_breakingOn (language : Language) {parts : List (List Usage)}
    (h : ∀ key ∈ parts.flatten.map Usage.key, ¬keys key) :
    (c.breakingOn keys).reportOf language parts = c.reportOf language parts := by
  have hissues : parts.flatMap (c.breakingOn keys).issuesOf = parts.flatMap c.issuesOf :=
    List.flatMap_congr fun us hus => c.issuesOf_breakingOn fun u hu =>
      h _ (List.mem_map_of_mem (List.mem_flatten_of_mem hus hu))
  rw [reportOf, reportOf, hissues]
  rfl

variable (keys) in
/-- An audit breaks down if it asks for one of the keys, and it is the same if it does not. -/
theorem run_breakingOn (code : String) (r : Route) :
    ((∀ key ∈ r.examined code, ¬keys key) → (c.breakingOn keys).run code r = c.run code r) ∧
    (∀ key ∈ r.examined code, keys key → (c.breakingOn keys).run code r = none) := by
  refine ⟨fun h => ?_, fun key hmem h => ?_⟩
  · rw [run_eq, run_eq, c.breaksOn_breakingOn h, c.reportOf_breakingOn _ h]
  · rw [run_eq, c.breaksOn_breakingOn_of_mem hmem h, if_pos rfl]

end

/-- A breakdown for one key that an audit asks for leaves an empty report, and a breakdown for other
keys changes nothing. Nothing else fails: a steady checker gives the report of the audit that the
text takes, and no subtraction and no look-up on the way to a location or to the text of a template
goes out of range. -/
theorem analyze_breakingOn (c : Checker) (keys : String → Prop) [DecidablePred keys]
    (code tag : String) :
    ((∀ key ∈ (Route.select code tag).examined code, ¬keys key) →
      (c.breakingOn keys).analyze code tag = c.analyze code tag) ∧
    (∀ key ∈ (Route.select code tag).examined code, keys key →
      (c.breakingOn keys).analyze code tag = .empty (.ofTag tag) c.threshold) ∧
    (c.Steady → c.run code (.select code tag) = some (c.analyze code tag)) ∧
    (∀ (text : String) (origin : Origin) (offset : Nat),
      ((LineIndex.ofText text).locate? offset).bind origin.map? =
        some (origin.map ((LineIndex.ofText text).locate offset))) ∧
    (∀ (s : Css.Snippet) (offset : Nat),
      s.locate? offset = some (s.locate (.ofText s.source) offset)) ∧
    (∀ (source : List Char) (t : Script.Tree),
      Component.templateStyles? source t = (Nat.psub t.span.stop 1).bind fun stop =>
        (Component.replaced source stop (t.span.start + 1) (t.children.map Script.Tree.span)).map
          String.ofList) := by
  obtain ⟨same, broken⟩ := c.run_breakingOn keys code (.select code tag)
  refine ⟨fun h => ?_, fun key hmem h => ?_, fun hc => ?_, fun text origin offset => ?_,
    Css.Snippet.locate?_eq, Component.templateStyles?_eq⟩
  · rw [analyze_eq, analyze_eq, same h]
    rfl
  · rw [analyze_eq, broken key hmem h]
    rfl
  · rw [analyze_eq, run_eq, hc.breaksOn]
    rfl
  · rw [LineIndex.locate?_eq, Option.bind_some, Origin.map?_eq _ (LineIndex.locate_counted _ offset)]

/-- The second of two usages breaks the audit, and a key that is not used does not. -/
theorem analyze_breakingOn_set :
    ((unaware .low).breakingOn (· = "javascript.builtins.Set")).analyze "Map; Set" "javascript" =
      .empty (.ofTag "javascript") .low ∧
    ((unaware .low).breakingOn (· = "javascript.builtins.WeakMap")).analyze "Map; Set" "javascript" =
      (unaware .low).analyze "Map; Set" "javascript" ∧
    (unaware .low).run "Map; Set" (.select "Map; Set" "javascript") =
      some ((unaware .low).analyze "Map; Set" "javascript") := by
  have hexamined : (Route.select "Map; Set" "javascript").examined "Map; Set" =
      ["javascript.builtins.Map", "javascript.builtins.Set"] := by decide +kernel
  refine ⟨(analyze_breakingOn _ _ _ _).2.1 "javascript.builtins.Set" ?_ rfl,
    (analyze_breakingOn _ _ _ _).1 ?_,
    (analyze_breakingOn _ (· = "") _ _).2.2.1 (unaware_steady .low)⟩
  · rw [hexamined]
    decide
  · rw [hexamined]
    decide

end Checker

end BaselineAudit
