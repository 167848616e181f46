import BaselineAudit.Command.Options

/-!
# Help

What the command says about itself.
-/

namespace BaselineAudit.Command

/-- The name of the command. -/
def name : String := "blens"

/-- The version of the command. -/
def version : String := "0.3.2"

/-- The line that says which version this is. -/
def versionText : String := name ++ " " ++ version ++ "\n"

/-- What a parameter does. -/
def Param.summary : Param → String
  | file => "Snippet to analyze; \x60-\x60 or nothing reads stdin"
  | lang => "Language tag (auto, css, html, javascript, typescript) [default: auto]"
  | minLevel => "Minimum Baseline level (low, high); overrides the config file"
  | data => "web-features data.json (falls back to $BASELINE_DATA, then config)"
  | config => "Config file (default: ./.baseline/config.toml)"
  | json => "Print JSON instead of text"
  | score => "Add severity scoring"
  | filter => "Scored issues to list (all, errors, warnings) [default: all]"
  | a11y => "Add the accessibility lint"
  | color => "Colored output (auto, always, never)"
  | logLevel => "Log level (trace, debug, info, warn, error) [default: warn]"
  | failOnIssues => "Exit with code 2 when any issue is reported"
  | help => "Print help"
  | version => "Print version"

/-- A parameter as the help shows it, behind its letter if it has one. -/
def Param.entry (p : Param) : String :=
  match p.short? with
  | some c => String.ofList ['-', c, ',', ' '] ++ p.usage
  | none => "    " ++ p.usage

/-- The width of the first column of the help. -/
def entryWidth : Nat := ((Param.named.map fun p => p.entry.length).max?).getD 0

/-- The line of a parameter in the help. -/
def Param.helpLine (p : Param) : String :=
  "  " ++ Text.padRight entryWidth p.entry ++ "  " ++ p.summary ++ "\n"

/-- How the command is called. -/
def usageLine : String := "Usage: " ++ name ++ " [OPTIONS] [FILE]\n"

/-- The help. -/
def helpText : String :=
  "Report web-platform features below your Baseline target\n\n" ++ usageLine ++
    "\nArguments:\n  " ++ Param.file.usage ++ "  " ++ Param.file.summary ++ "\n\nOptions:\n" ++
    String.join (Param.named.map Param.helpLine)

/-- An error shows how the command is called if the arguments have another form. -/
def UsageError.showsUsage : UsageError → Bool
  | unknown _ | extraValue _ _ | repeated _ => true
  | missingValue _ | invalid _ _ _ => false

/-- What is printed about a wrong command line. -/
def UsageError.text (e : UsageError) : String :=
  "error: " ++ e.message ++ "\n\n" ++ (if e.showsUsage then usageLine ++ "\n" else "") ++
    "For more information, try '--help'.\n"

end BaselineAudit.Command
