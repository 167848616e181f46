import BaselineAudit.Feature.Catalog

/-!
# Sources of statuses
-/

namespace BaselineAudit

/-- Why a source has no status for a key. -/
inductive ResolveError where
  /-- The key belongs to no feature. -/
  | unmappedKey (key : String)
  | unknownFeature (id : String)
  | noStatus (id : String)
  /-- The source could not be reached. -/
  | backend (reason : String)
  deriving DecidableEq, Repr

namespace ResolveError

/-- What is said about a missing status. -/
def message : ResolveError → String
  | unmappedKey key => "compatibility key `" ++ key ++ "` is not mapped to a feature"
  | unknownFeature id => "unknown feature `" ++ id ++ "`"
  | noStatus id => "feature `" ++ id ++ "` has no baseline status"
  | backend reason => "status lookup failed: " ++ reason

end ResolveError

/-- What a source answers when it is asked for the status of a key. -/
inductive Answer where
  | status (s : Status)
  | unknown (e : ResolveError)
  /-- The source broke down and the analysis that asked it cannot go on. -/
  | breakdown

/-- A source of statuses. It is asked with the feature that a key belongs to, which is empty if there
is none, and the key. -/
abbrev Resolver := (feature key : String) → Answer

namespace Catalog

/-- The status of a key of a feature: the one that the feature has for this key, or else its own. -/
def resolve (c : Catalog) (feature key : String) : Except ResolveError Status :=
  if feature.isEmpty then .error (.unmappedKey key)
  else
    match c.find? feature with
    | none => .error (.unknownFeature feature)
    | some record =>
      match record.status with
      | none => .error (.noStatus feature)
      | some status => .ok ((status.byKey.bind (Json.find? key)).getD status).flat

/-- A catalog as a source of statuses. -/
def resolver (c : Catalog) : Resolver := fun feature key =>
  match c.resolve feature key with
  | .ok status => .status status
  | .error e => .unknown e

end Catalog

end BaselineAudit
