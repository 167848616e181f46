import BaselineAudit.Feature.KeyIndex
import BaselineAudit.Feature.Resolver
import BaselineAudit.Report.Basic

/-!
# Judging usages

A `Checker` knows the level of every key. A `Collector` is given the usages of one text, one after
the other, and keeps those that are below the threshold, each key once at a place.
-/

namespace BaselineAudit

/-- What usages are judged with. -/
structure Checker where
  index : KeyIndex
  resolver : Resolver
  threshold : Threshold

namespace Checker

/-- A checker that knows what a catalog says. -/
def ofCatalog (c : Catalog) (threshold : Threshold) : Checker :=
  ⟨.ofCatalog c, c.resolver, threshold⟩

/-- A checker in one line: how many keys it knows, and its threshold. -/
def summary (c : Checker) : String :=
  "BaselineChecker \x7b compat_keys: " ++ c.index.size.repr ++ ", min_level: "
    ++ c.threshold.name.capitalize ++ ", .. \x7d"

/-- What the checker's source answers for a key. -/
def ask (c : Checker) (key : String) : Answer := c.resolver ((c.index.lookup key).getD "") key

end Checker

/-- The usages below the threshold that were found so far in one text. -/
structure Collector where
  /-- The names of the issues, as `Collector.name` gives them. -/
  seen : List String := []
  /-- The issues, the last one first. -/
  found : List Issue := []
  checked : Nat := 0
  deriving Inhabited

namespace Collector

/-- The name under which a key at a place is remembered. Keys without a place share one. -/
def name (key : String) : Option Location → String
  | some l => key ++ "@" ++ l.line.repr ++ ":" ++ l.column.repr
  | none => key ++ "@undefined:undefined"

/-- The issue of a usage with a status; without one, the level is `unsupported`. -/
def issue (c : Checker) (u : Usage) (status : Option Status) : Issue :=
  { kind := u.kind
    property := u.property
    value := u.value
    key := u.key
    feature := c.index.lookup u.key
    level := (status.map (·.level)).getD .unsupported
    lowDate := status.bind (·.lowDate)
    highDate := status.bind (·.highDate)
    location := u.location
    support := status.bind (·.support) }

/-- Counts an issue's usage, and records the issue unless its level is accepted or its key was
recorded at the same place. Says whether it was recorded. -/
def record (c : Checker) (k : Collector) (i : Issue) : Collector × Bool :=
  let k := { k with checked := k.checked + 1 }
  if c.threshold.accepts i.level then (k, false)
  else if k.seen.contains (name i.key i.location) then (k, false)
  else ({ k with seen := name i.key i.location :: k.seen, found := i :: k.found }, true)

/-- Judges a usage and says whether it is a new issue. There is no result if the source of statuses
breaks down. -/
def check (c : Checker) (k : Collector) (u : Usage) : Option (Collector × Bool) :=
  match c.ask u.key with
  | .breakdown => none
  | .status s => some (record c k (issue c u (some s)))
  | .unknown _ => some (record c k (issue c u none))

/-- Judges usages in order. -/
def checkAll (c : Checker) : Collector → List Usage → Option Collector
  | k, [] => some k
  | k, u :: rest =>
    match check c k u with
    | none => none
    | some (k, _) => checkAll c k rest

/-- The issues in the order in which they were found. -/
def issues (k : Collector) : List Issue := k.found.reverse

/-- The report on the text. -/
def report (c : Checker) (language : Language) (k : Collector) : Report :=
  .ofIssues language c.threshold k.issues k.checked

end Collector

namespace Checker

/-- The report on the usages of one text. -/
def judge (c : Checker) (language : Language) (usages : List Usage) : Option Report :=
  (Collector.checkAll c {} usages).map (Collector.report c language)

end Checker

end BaselineAudit
