import BaselineAudit.Script.Usages

/-!
# Parts of a script that are left out

A visit goes through a script as a whole and leaves out parts of the text node by node. A member and
the name in front of it are nodes of their own, so one of them may be left out and the other one not.

* `Script.Tree.visited`: the nodes that a visit comes to, in order.
* `Script.checksOf_eq_visited`: the checks of a visit are those of these nodes, each for itself.
* `Script.checksOf_eq_filter`: leaving out parts is taking away the checks within them.
-/

namespace BaselineAudit.Script

/-- What a node uses by itself. -/
def usage? (locate : Nat → Location) : Tree → Option Usage
  | .node (.reference name) span _ => some (.ofBuiltin name (locate span.start))
  | .node (.member property) span [.node (.reference object) _ _] =>
    some (.ofApi object property (locate span.start))
  | _ => none

/-- The check of a node by itself, with the part of the text that the node takes. -/
def check? (locate : Nat → Location) (suppressed : List Span) (t : Tree) : Option Check :=
  if isSuppressed suppressed t.span then none else (usage? locate t).map (Check.mk t.span)

/-- The check lies within none of the parts that are left out. -/
def Check.IsOutside (suppressed : List Span) (c : Check) : Prop :=
  ∀ outer ∈ suppressed, ¬(outer.start ≤ c.span.start ∧ c.span.stop ≤ outer.stop)

instance (suppressed : List Span) (c : Check) : Decidable (c.IsOutside suppressed) :=
  inferInstanceAs (Decidable (∀ outer ∈ suppressed, _))

/-! ## Visited nodes -/

namespace Tree

mutual

/-- The nodes that a visit comes to, each in front of those within it. Within names and closed nodes
there are none. -/
def visited : Tree → List Tree
  | .node (.reference name) span children => [.node (.reference name) span children]
  | .node shape span children =>
    if shape.isClosed then [] else .node shape span children :: visitedOfAll children

/-- The nodes that a visit comes to in trees. -/
def visitedOfAll : List Tree → List Tree
  | [] => []
  | t :: rest => visited t ++ visitedOfAll rest

end

theorem visited_of_shape {shape : Shape} {span : Span} {children : List Tree}
    (hname : ∀ name, shape = .reference name → False) :
    (node shape span children).visited =
      if shape.isClosed then [] else node shape span children :: visitedOfAll children := by
  rw [visited]
  exact hname

mutual

theorem visited_sublist : (t : Tree) → t.visited.Sublist t.nodes
  | .node shape span children => by
    unfold visited
    split
    case h_1 heq =>
      cases heq
      exact (List.nil_sublist _).cons_cons _
    case h_2 heq =>
      cases heq
      split
      · exact List.nil_sublist _
      · exact (visitedOfAll_sublist children).cons_cons _

theorem visitedOfAll_sublist : (ts : List Tree) → (visitedOfAll ts).Sublist (nodesOfAll ts)
  | [] => .slnil
  | t :: ts => by
    rw [visitedOfAll, nodesOfAll]
    exact (visited_sublist t).append (visitedOfAll_sublist ts)

end

end Tree

/-! ## Checks of nodes -/

section

variable (locate : Nat → Location) (suppressed : List Span)

theorem check?_reference (name : String) (span : Span) (children : List Tree) :
    check? locate suppressed (.node (.reference name) span children) =
      if isSuppressed suppressed span then none else some (.ofName locate name span) :=
  rfl

theorem checkMember_eq (property : String) (span : Span) (object : List Tree) :
    checkMember locate suppressed property span object =
      (check? locate suppressed (.node (.member property) span object)).toList := by
  unfold checkMember
  split
  · rw [check?, Tree.span]
    split <;> rfl
  · rw [check?, usage?, Option.map_none, ite_self]
    · rfl
    all_goals simp_all

theorem check?_of_shape {t : Tree} (hname : ∀ name, t.shape ≠ .reference name)
    (hmember : ∀ property, t.shape ≠ .member property) : check? locate suppressed t = none := by
  have hnone : usage? locate t = none := by
    unfold usage?
    split
    · exact absurd rfl (hname _)
    · exact absurd rfl (hmember _)
    · rfl
  rw [check?, hnone, Option.map_none, ite_self]

mutual

-- A member is checked before the visit goes on to its object, so it stands in front as in `visited`.
theorem checksOf_eq_visited : (t : Tree) →
    checksOf locate suppressed t = t.visited.filterMap (check? locate suppressed)
  | .node shape span children => by
    unfold checksOf
    split
    case h_1 name _ _ heq =>
      cases heq
      rw [Tree.visited, List.filterMap_cons, check?_reference]
      split <;> rfl
    case h_2 property _ _ heq =>
      cases heq
      rw [Tree.visited_of_shape (by simp), if_neg (by simp [Shape.isClosed]), checkMember_eq,
        checksOfAll_eq_visited children, List.filterMap_cons]
      cases check? locate suppressed (.node (.member property) span children) <;> rfl
    case h_3 hname hmember heq =>
      cases heq
      rw [Tree.visited_of_shape hname]
      split
      · rfl
      · rw [List.filterMap_cons_none, checksOfAll_eq_visited children]
        exact check?_of_shape locate suppressed hname hmember

theorem checksOfAll_eq_visited : (ts : List Tree) →
    checksOfAll locate suppressed ts =
      (Tree.visitedOfAll ts).filterMap (check? locate suppressed)
  | [] => rfl
  | t :: ts => by
    rw [checksOfAll, Tree.visitedOfAll, List.filterMap_append, checksOf_eq_visited t,
      checksOfAll_eq_visited ts]

end

/-- The checks of a visit, without the parts of the text. -/
theorem usagesOf_eq_visited (t : Tree) :
    usagesOf locate suppressed t = t.visited.filterMap fun n =>
      if isSuppressed suppressed n.span then none else usage? locate n := by
  rw [usagesOf, checksOf_eq_visited, List.map_filterMap]
  refine congrArg (t.visited.filterMap ·) (funext fun n => ?_)
  unfold check?
  split
  · rfl
  · cases usage? locate n <;> rfl

/-- What a script uses, one of its nodes uses by itself. -/
theorem exists_node_of_mem_usagesOf {t : Tree} {u : Usage} (h : u ∈ usagesOf locate suppressed t) :
    ∃ n ∈ t.nodes, usage? locate n = some u := by
  rw [usagesOf_eq_visited] at h
  obtain ⟨n, hn, hu⟩ := List.mem_filterMap.mp h
  split at hu
  · exact absurd hu (by simp)
  · exact ⟨n, t.visited_sublist.subset hn, hu⟩

/-! ## Leaving out -/

theorem check?_nil (t : Tree) : check? locate [] t = (usage? locate t).map (Check.mk t.span) :=
  rfl

theorem isSuppressed_eq (c : Check) :
    isSuppressed suppressed c.span = !decide (c.IsOutside suppressed) := by
  rw [Bool.eq_iff_iff, Bool.not_eq_true', decide_eq_false_iff_not]
  simp [isSuppressed, Span.within, Check.IsOutside]

theorem check?_eq_filter (t : Tree) :
    check? locate suppressed t = (check? locate [] t).filter (·.IsOutside suppressed) := by
  rw [check?_nil, check?]
  cases usage? locate t with
  | none => rw [Option.map_none, ite_self]; rfl
  | some u =>
    have hspan := isSuppressed_eq suppressed ⟨t.span, u⟩
    rw [Option.map_some, Option.filter_some, hspan]
    cases decide (Check.IsOutside suppressed ⟨t.span, u⟩) <;> rfl

theorem checksOf_eq_filter (t : Tree) :
    checksOf locate suppressed t = (checksOf locate [] t).filter (·.IsOutside suppressed) := by
  rw [checksOf_eq_visited, checksOf_eq_visited, List.filter_filterMap]
  exact congrArg (t.visited.filterMap ·) (funext (check?_eq_filter locate suppressed))

end

/-- A visit checks the nodes that it comes to, each with its own part of the text. Leaving out parts of
the text takes away the checks that lie within one of them, and keeps the others in their order and with
their keys and places. -/
theorem usages_outside_suppressed (source : String) (origin : Origin) (suppressed : List Span)
    (t : Tree) :
    let locate := fun offset => origin.map ((LineIndex.ofText source).locate offset)
    let outside := (checksOf locate [] t).filter fun c => ∀ outer ∈ suppressed,
      ¬(outer.start ≤ c.span.start ∧ c.span.stop ≤ outer.stop)
    checksOf locate [] t = t.visited.filterMap (fun n => (usage? locate n).map (Check.mk n.span)) ∧
      checksOf locate suppressed t = outside ∧
      usagesOf locate suppressed t = outside.map Check.usage ∧
      (usagesOf locate suppressed t).Sublist (usagesOf locate [] t) := by
  intro locate outside
  have hfilter : checksOf locate suppressed t = outside := checksOf_eq_filter locate suppressed t
  refine ⟨checksOf_eq_visited locate [] t, hfilter, congrArg (List.map Check.usage) hfilter, ?_⟩
  rw [usagesOf, hfilter]
  exact List.filter_sublist.map Check.usage

/-- A left out part that covers a name covers neither the member of the name nor what stands next to
it. -/
example :
    let member : Tree := .node (.member "log") ⟨0, 11⟩ [.node (.reference "console") ⟨0, 7⟩ []]
    let call : Tree := .node .call ⟨0, 14⟩ [member, .node (.reference "x") ⟨12, 13⟩ []]
    (usagesOf (fun o => ⟨1, o + 1⟩) [⟨0, 8⟩] call).map Usage.location =
      [some ⟨1, 1⟩, some ⟨1, 13⟩] := by
  rfl

end BaselineAudit.Script
