import BaselineAudit.Detect.Signal
import BaselineAudit.Json.Reader

/-!
# Detecting the language of a text

Every language has signals, and a text is taken to be in the language whose signals weigh most in it.
A text in which no signal weighs enough is looked at once more for markup and for scripts.
-/

namespace BaselineAudit.Detect

/-- A language and how much speaks for it. -/
structure Detection where
  language : String
  relevance : Nat
  deriving DecidableEq, Repr

/-- How often a signal counts in a text. -/
def Signal.hits (cs : List Char) (s : Signal) : Nat := s.pattern.count s.cap cs

/-- What a list of signals weighs, given how often each of them was found. -/
def weigh (hits : Signal → Nat) (signals : List Signal) : Nat :=
  (signals.map fun s => s.weight * min s.cap (hits s)).foldr (· + ·) 0

/-- What a text that is one JSON object or array weighs more for JSON. -/
def jsonDocumentBonus : Nat := 10

/-- The languages with what speaks for them. TypeScript comes right behind JavaScript: it is a candidate
if one of its own signals was found, and then the signals of JavaScript count for it too. -/
def candidatesOf (hits : Signal → Nat) (isJsonDocument : Bool) (p : Profile) : List Detection :=
  let relevance := weigh hits p.signals
  if p.language = "javascript" then
    let typed := weigh hits typescriptOnly
    ⟨p.language, relevance⟩ ::
      (if 0 < typed then [⟨"typescript", relevance + typed⟩] else [])
  else if p.language = "json" && isJsonDocument then
    [⟨p.language, relevance + jsonDocumentBonus⟩]
  else [⟨p.language, relevance⟩]

/-- Takes a candidate if more speaks for it than for the best one so far. -/
def better (best : Option Detection) (d : Detection) : Option Detection :=
  if d.relevance = 0 then best
  else
    match best with
    | none => some d
    | some b => if b.relevance < d.relevance then some d else best

/-- The first of the candidates that most speaks for, if anything speaks for one. -/
def best (candidates : List Detection) : Option Detection := candidates.foldl better none

/-- A text that is one JSON object or array. -/
def isJsonDocument (text : String) : Bool :=
  let trimmed := Text.trim text
  match trimmed.toList with
  | '\x7b' :: _ | '[' :: _ => (Json.parse? trimmed).any Json.readable
  | _ => false

/-- All candidates for a text. -/
def candidates (hits : Signal → Nat) (jsonDocument : Bool) : List Detection :=
  profiles.flatMap (candidatesOf hits jsonDocument)

/-- The language that most speaks for, if any signal was found. -/
def classify (text : String) : Option Detection :=
  let cs := text.toList
  best (candidates (·.hits cs) (isJsonDocument text))

/-- The name of a language in an editor. -/
def editorId? : String → Option String
  | "javascript" | "js" => some "javascript"
  | "typescript" | "ts" => some "typescript"
  | "python" | "py" => some "python"
  | "java" => some "java"
  | "go" => some "go"
  | "c" | "cpp" => some "cpp"
  | "csharp" => some "csharp"
  | "rust" => some "rust"
  | "sql" => some "sql"
  | "xml" | "html" => some "html"
  | "css" => some "css"
  | "php" => some "php"
  | "json" => some "json"
  | "bash" | "shell" | "sh" => some "shell"
  | "yaml" | "yml" => some "yaml"
  | "markdown" | "md" => some "markdown"
  | _ => none

/-- Texts with fewer characters are not classified. -/
def minLength : Nat := 3

/-- How far a detection can be trusted, in hundredths: a tenth of its relevance. -/
def Detection.confidence (d : Detection) : Nat := 10 * d.relevance

/-- The least confidence that is trusted, in hundredths. -/
def minConfidence : Nat := 15

/-- The name for a text in no known language. -/
def plaintext : String := "plaintext"

section Fallbacks

open Pattern

/-- A text that starts with a tag. -/
def leadingTag : Pattern := all [anchor .textStart, spaces, text "<"]

/-- Something like a tag. -/
def tagLike : Pattern := all [text "<", opt (text "/"), set .letterAnyCase]

/-- Something that only scripts have. -/
def scriptHint : Pattern :=
  any [all [edge, text "console.log("], all [edge, text "export", gap],
    all [text "import", gap, plus (set .inLine), text "from", gap, set (.ofText "'\"")]]

end Fallbacks

/-- What is left to go by if nothing speaks clearly for a language. -/
def fallback (cs : List Char) : String :=
  if leadingTag.occurs cs && tagLike.occurs cs then "html"
  else if scriptHint.occurs cs then "javascript"
  else plaintext

/-- The name in an editor of the language of a text. -/
def detect (text : String) : String :=
  let trimmed := Text.trim text
  let cs := trimmed.toList
  if cs.length < minLength then
    if cs.head? = some '<' then "html" else plaintext
  else
    match (classify trimmed).filter (minConfidence ≤ ·.confidence) with
    | some d => (editorId? d.language).getD (fallback cs)
    | none => fallback cs

end BaselineAudit.Detect
