import BaselineAudit.Proofs.Audit.Keys
import BaselineAudit.Proofs.Report.Collector

/-!
# The parts of an audit

An audit reads a text into parts, each a list of usages, and reports them one after the other.

* `Route.parts`: the parts. They do not depend on the checker.
* `Route.parts_isFound`, `Route.parts_pairwise`: each part holds usages of one realm, and no two parts
  have a key in common.
* `Checker.run_eq`: the report has the issues of the parts in order, and there is none if the source
  of statuses breaks down for a key in one of them.
* `Checker.Entry`: the ways to have a text audited.
-/

namespace BaselineAudit

/-! ## Audits by what they read -/

namespace Html.Document

/-- What the style sheets in a document use. -/
def styleUsages (d : Document) : List Usage :=
  ((d.blocks.filter (·.kind = .style)).map Checker.styleSnippet).flatMap Css.Snippet.usages

/-- What the scripts in a document use. -/
def scriptUsages (d : Document) : List Usage :=
  (d.blocks.filter (·.kind = .script)).flatMap Checker.scriptUsages

theorem styleUsages_isFound (d : Document) : ∀ u ∈ d.styleUsages, u.IsFound .styles := by
  intro u hu
  obtain ⟨s, hs, hu⟩ := List.mem_flatMap.mp hu
  obtain ⟨b, hb, rfl⟩ := List.mem_map.mp hs
  have hc : (Checker.styleSnippet b).origin.Counted :=
    d.blocks_counted b (List.mem_of_mem_filter hb)
  exact Css.Snippet.usages_isFound hc u hu

theorem scriptUsages_isFound (d : Document) : ∀ u ∈ d.scriptUsages, u.IsFound .scripts := by
  intro u hu
  obtain ⟨b, hb, hu⟩ := List.mem_flatMap.mp hu
  have hc : (Origin.verbatim b.start).Counted := d.blocks_counted b (List.mem_of_mem_filter hb)
  unfold Checker.scriptUsages at hu
  cases hs : Script.usages? .plain (.verbatim b.start) b.text with
  | none => rw [hs] at hu; exact absurd hu List.not_mem_nil
  | some us =>
    rw [hs] at hu
    exact Script.usages?_isFound hc hs u hu

end Html.Document

namespace Checker

-- As with the declarations of a style sheet, the audits are unfolded as functions: at an argument,
-- the parsers would be run.

theorem auditHtml_eq : ∀ (c : Checker) (code : String),
    c.auditHtml code = (Html.Document.parse? code).elim (some (c.nothing .html)) fun d =>
      c.judge .html d.usages := by
  suffices h : @auditHtml = _ from fun c => congrFun (congrFun h c)
  delta auditHtml
  funext c code
  generalize Html.Document.parse? code = d?
  cases d? <;> rfl

theorem auditMixed_eq : ∀ (c : Checker) (code : String),
    c.auditMixed code = (Html.Document.parse? code).elim (some (c.nothing .mixed)) fun d =>
      (do
        let html ← c.judge .html d.usages
        let css ← c.judge .css d.styleUsages
        let js ← c.judge .js d.scriptUsages
        pure (.merge .mixed c.threshold [html, css, js])) := by
  suffices h : @auditMixed = _ from fun c => congrFun (congrFun h c)
  delta auditMixed
  funext c code
  generalize Html.Document.parse? code = d?
  cases d? <;> rfl

theorem auditScript_eq : ∀ (c : Checker) (code : String) (typed : Bool),
    c.auditScript code typed =
      (Script.usages? (.ofTyped typed) .whole code).elim (some (c.nothing .js)) (c.judge .js) := by
  suffices h : @auditScript = _ from fun c code => congrFun (congrFun (congrFun h c) code)
  delta auditScript
  funext c code typed
  generalize Script.usages? (.ofTyped typed) .whole code = us?
  cases us? <;> rfl

theorem auditComponent_eq : ∀ (c : Checker) (code : String),
    c.auditComponent code = (Component.parse? code).elim (some (c.nothing .jsx)) fun k =>
      (do
        let script ← c.judge .jsx k.scriptUsages
        let styles ← c.judge .jsx k.styleUsages
        pure (.mergeDistinct .jsx c.threshold [script, styles])) := by
  suffices h : @auditComponent = _ from fun c => congrFun (congrFun h c)
  delta auditComponent
  funext c code
  generalize Component.parse? code = k?
  cases k? <;> rfl

end Checker

/-! ## Parts -/

/-- The usages of a text, part by part. A text that cannot be read has no part. -/
def Route.parts (code : String) : Route → List (List Usage)
  | .css => [Css.Snippet.usages ⟨code, .stylesheet, .whole⟩]
  | .html => (Html.Document.parse? code).elim [] fun d => [d.usages]
  | .mixed => (Html.Document.parse? code).elim [] fun d => [d.usages, d.styleUsages, d.scriptUsages]
  | .script typed => (Script.usages? (.ofTyped typed) .whole code).toList
  | .component => (Component.parse? code).elim [] fun k => [k.scriptUsages, k.styleUsages]
  | .unsupported _ => []

/-- The realms of the parts, in order. -/
def Route.realms : Route → List Realm
  | .css => [.styles]
  | .html => [.documents]
  | .mixed => [.documents, .styles, .scripts]
  | .script _ => [.scripts]
  | .component => [.scripts, .styles]
  | .unsupported _ => []

namespace Route

/-- A text has either no part, or one part for each realm of the route. -/
theorem parts_isFound (code : String) (r : Route) :
    r.parts code = [] ∨
      List.Forall₂ (fun realm us => ∀ u ∈ us, Usage.IsFound realm u) r.realms (r.parts code) := by
  cases r with
  | css =>
    have hc : (Css.Snippet.origin ⟨code, .stylesheet, .whole⟩).Counted := trivial
    exact .inr (.cons (Css.Snippet.usages_isFound hc) .nil)
  | html =>
    rw [parts]
    generalize Html.Document.parse? code = d?
    cases d? with
    | none => exact .inl rfl
    | some d => exact .inr (.cons d.usages_isFound .nil)
  | mixed =>
    rw [parts]
    generalize Html.Document.parse? code = d?
    cases d? with
    | none => exact .inl rfl
    | some d =>
      exact .inr (.cons d.usages_isFound (.cons d.styleUsages_isFound (.cons d.scriptUsages_isFound .nil)))
  | script typed =>
    rw [parts]
    generalize hs : Script.usages? (.ofTyped typed) .whole code = us?
    cases us? with
    | none => exact .inl rfl
    | some us =>
      have hc : Origin.whole.Counted := trivial
      exact .inr (.cons (Script.usages?_isFound hc hs) .nil)
  | component =>
    rw [parts]
    generalize Component.parse? code = k?
    cases k? with
    | none => exact .inl rfl
    | some k => exact .inr (.cons k.scriptUsages_isFound (.cons k.styleUsages_isFound .nil))
  | unsupported tag => exact .inl rfl

theorem realms_nodup (r : Route) : r.realms.Nodup := by
  cases r <;> simp [realms]

theorem pairwise_key_ne {realms : List Realm} {parts : List (List Usage)} (hn : realms.Nodup)
    (h : List.Forall₂ (fun realm us => ∀ u ∈ us, Usage.IsFound realm u) realms parts) :
    parts.Pairwise fun us vs => ∀ u ∈ us, ∀ v ∈ vs, u.key ≠ v.key := by
  induction h with
  | nil => exact .nil
  | @cons r us realms parts hu h ih =>
    obtain ⟨hr, hn⟩ := List.nodup_cons.mp hn
    refine .cons (fun vs hvs u hmu v hmv => ?_) (ih hn)
    obtain ⟨i, hi, rfl⟩ := List.getElem_of_mem hvs
    have hi' : i < realms.length := by rw [h.length_eq]; exact hi
    have hv := h.get hi' hi
    exact Usage.key_ne_of_realm_ne (hu u hmu) (hv v hmv) fun he => hr (he ▸ List.get_mem _ _)

/-- No two parts have a key in common. -/
theorem parts_pairwise (code : String) (r : Route) :
    (r.parts code).Pairwise fun us vs => ∀ u ∈ us, ∀ v ∈ vs, u.key ≠ v.key := by
  rcases r.parts_isFound code with h | h
  · rw [h]; exact .nil
  · exact pairwise_key_ne r.realms_nodup h

/-- What is found in a part. -/
theorem isFound_of_mem_parts {code : String} {r : Route} {us : List Usage}
    (hus : us ∈ r.parts code) {u : Usage} (hu : u ∈ us) : u.IsFound u.kind.realm := by
  rcases r.parts_isFound code with h | h
  · rw [h] at hus; exact absurd hus List.not_mem_nil
  · obtain ⟨i, hi, rfl⟩ := List.getElem_of_mem hus
    have hi' : i < r.realms.length := by rw [h.length_eq]; exact hi
    have hf := h.get hi' hi u hu
    rwa [← hf.realm] at hf

end Route

/-! ## Reports by their parts -/

namespace Checker

/-- The report on the parts of a text. -/
def reportOf (c : Checker) (language : Language) (parts : List (List Usage)) : Report :=
  .ofIssues language c.threshold (parts.flatMap c.issuesOf) (parts.map List.length).sum

/-- The source breaks down when it is asked for a key in one of the parts. -/
def breaksOn (c : Checker) (parts : List (List Usage)) : Bool :=
  parts.any fun us => us.any fun u => c.breaks u.key

/-- No key is reported twice at one place if no two parts have a key in common. -/
theorem flatMap_issuesOf_nodup (c : Checker) {parts : List (List Usage)}
    (h : parts.Pairwise fun us vs => ∀ u ∈ us, ∀ v ∈ vs, u.key ≠ v.key) :
    ((parts.flatMap c.issuesOf).map Issue.spot).Nodup := by
  rw [List.map_flatMap, List.nodup_flatMap]
  refine ⟨fun us _ => c.issuesOf_nodup us, h.imp fun {us vs} hk => ?_⟩
  intro spot hs hs'
  obtain ⟨i, hi, rfl⟩ := List.mem_map.mp hs
  obtain ⟨j, hj, hs⟩ := List.mem_map.mp hs'
  obtain ⟨u, hu, -, rfl⟩ := mem_issuesOf hi
  obtain ⟨v, hv, -, rfl⟩ := mem_issuesOf hj
  exact hk u hu v hv (congrArg Prod.fst hs).symm

theorem identity_nodup {issues : List Issue} (h : (issues.map Issue.spot).Nodup) :
    (issues.map Report.identity).Nodup := by
  refine List.Nodup.of_map Prod.snd ?_
  rw [List.map_map]
  exact h

/-- Merging the reports on a script and on its styles loses no issue. -/
theorem mergeDistinct_reportOn (c : Checker) {us vs : List Usage}
    (h : ∀ u ∈ us, ∀ v ∈ vs, u.key ≠ v.key) :
    Report.mergeDistinct .jsx c.threshold [c.reportOn .jsx us, c.reportOn .jsx vs] =
      .merge .jsx c.threshold [c.reportOn .jsx us, c.reportOn .jsx vs] := by
  have hp : [us, vs].Pairwise fun us vs => ∀ u ∈ us, ∀ v ∈ vs, u.key ≠ v.key := by simpa using h
  exact Report.mergeDistinct_eq_merge (identity_nodup (c.flatMap_issuesOf_nodup hp))

theorem reportOf_singleton (c : Checker) (language : Language) (us : List Usage) :
    c.reportOf language [us] = c.reportOn language us := by
  simp [reportOf, reportOn]

theorem judge_eq_reportOf (c : Checker) (language : Language) (us : List Usage) :
    c.judge language us =
      if c.breaksOn [us] then none else some (c.reportOf language [us]) := by
  rw [judge_eq, reportOf_singleton, breaksOn, List.any_cons, List.any_nil, Bool.or_false]

/-- The report on a document with its style sheets and scripts. -/
theorem judge_mixed (c : Checker) (us vs ws : List Usage) :
    (do
      let html ← c.judge .html us
      let css ← c.judge .css vs
      let js ← c.judge .js ws
      pure (Report.merge .mixed c.threshold [html, css, js])) =
      if c.breaksOn [us, vs, ws] then none else some (c.reportOf .mixed [us, vs, ws]) := by
  simp only [judge_eq, breaksOn, List.any_cons, List.any_nil, Bool.or_false]
  cases us.any fun u => c.breaks u.key <;> cases vs.any fun u => c.breaks u.key <;>
    cases ws.any fun u => c.breaks u.key <;> rfl

/-- The report on a script with markup and on its styles. Merging them loses no issue. -/
theorem judge_component (c : Checker) {us vs : List Usage}
    (h : ∀ u ∈ us, ∀ v ∈ vs, u.key ≠ v.key) :
    (do
      let script ← c.judge .jsx us
      let styles ← c.judge .jsx vs
      pure (Report.mergeDistinct .jsx c.threshold [script, styles])) =
      if c.breaksOn [us, vs] then none else some (c.reportOf .jsx [us, vs]) := by
  have hm := c.mergeDistinct_reportOn h
  simp only [judge_eq, breaksOn, List.any_cons, List.any_nil, Bool.or_false]
  cases us.any fun u => c.breaks u.key <;> cases vs.any fun u => c.breaks u.key <;>
    first | rfl | exact congrArg some hm

/-- The report on a text has the issues of its parts in order. -/
theorem run_eq (c : Checker) (code : String) (r : Route) :
    c.run code r =
      if c.breaksOn (r.parts code) then none else some (c.reportOf r.language (r.parts code)) := by
  have hp := r.parts_pairwise code
  cases r with
  | css => exact c.judge_eq_reportOf .css _
  | html =>
    rw [show c.run code .html = _ from c.auditHtml_eq code, Route.parts]
    generalize Html.Document.parse? code = d?
    cases d? with
    | none => rfl
    | some d => exact c.judge_eq_reportOf .html d.usages
  | mixed =>
    rw [show c.run code .mixed = _ from c.auditMixed_eq code, Route.parts]
    generalize Html.Document.parse? code = d?
    cases d? with
    | none => rfl
    | some d => exact c.judge_mixed d.usages d.styleUsages d.scriptUsages
  | script typed =>
    rw [show c.run code (.script typed) = _ from c.auditScript_eq code typed, Route.parts]
    generalize Script.usages? (.ofTyped typed) .whole code = us?
    cases us? with
    | none => rfl
    | some us => exact c.judge_eq_reportOf .js us
  | component =>
    rw [show c.run code .component = _ from c.auditComponent_eq code, Route.parts]
    rw [Route.parts] at hp
    generalize Component.parse? code = k? at hp ⊢
    cases k? with
    | none => rfl
    | some k =>
      refine c.judge_component ?_
      exact (List.pairwise_cons.mp hp).1 _ (List.mem_singleton_self _)
  | unsupported tag => rfl

/-- The ways to have a text audited. -/
inductive Entry where
  /-- As a text of one kind. -/
  | direct (route : Route)
  /-- By the tag of its language. -/
  | tagged (tag : String)
  /-- By the language that it seems to be in. -/
  | detected

/-- The report on a text. There is none if the source of statuses breaks down in a direct audit. -/
def report? (c : Checker) (code : String) : Entry → Option Report
  | .direct route => c.run code route
  | .tagged tag => some (c.analyze code tag)
  | .detected => some (c.analyzeDetected code)

/-- The tag and the route by which a text is audited. -/
theorem analyze_eq (c : Checker) (code tag : String) :
    c.analyze code tag = (c.run code (.select code tag)).getD (c.nothing (.ofTag tag)) := rfl

/-- A report is that on the parts of a route, or empty. -/
theorem report?_cases {c : Checker} {code : String} {e : Entry} {r : Report}
    (h : c.report? code e = some r) :
    (∃ route : Route, c.breaksOn (route.parts code) = false ∧
      r = c.reportOf route.language (route.parts code)) ∨ r.issues = [] := by
  have run : ∀ route, c.run code route = some r → ∃ route : Route,
      c.breaksOn (route.parts code) = false ∧ r = c.reportOf route.language (route.parts code) := by
    intro route h
    rw [run_eq] at h
    split at h
    · exact absurd h (by simp)
    · rename_i hb
      exact ⟨route, by simpa using hb, (Option.some.inj h).symm⟩
  have analyze : ∀ tag, c.analyze code tag = r → (∃ route : Route,
      c.breaksOn (route.parts code) = false ∧ r = c.reportOf route.language (route.parts code)) ∨
        r.issues = [] := by
    intro tag h
    rw [analyze_eq] at h
    cases hr : c.run code (.select code tag) with
    | none => rw [hr] at h; rw [← h]; exact .inr rfl
    | some s => rw [hr] at h; exact .inl (run _ (hr.trans (congrArg some h)))
  cases e with
  | direct route => exact .inl (run route h)
  | tagged tag => exact analyze tag (Option.some.inj h)
  | detected => exact analyze (Detect.detect code) (Option.some.inj h)

end Checker

end BaselineAudit
