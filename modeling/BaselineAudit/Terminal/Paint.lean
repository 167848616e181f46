import BaselineAudit.Text.Blank

/-!
# Coloured text

Text on a terminal is coloured with escape sequences. A `Painter` writes them, or leaves the text as
it is.
-/

namespace BaselineAudit

/-- When output is coloured. -/
inductive ColorMode where
  /-- If the output is a terminal. -/
  | auto
  | always
  | never
  deriving DecidableEq, Repr, Inhabited

namespace ColorMode

/-- A mode as it is written in settings. -/
def name : ColorMode → String
  | auto => "auto"
  | always => "always"
  | never => "never"

/-- The mode with a name. -/
def ofName? : String → Option ColorMode
  | "auto" => some auto
  | "always" => some always
  | "never" => some never
  | _ => none

/-- What is said about a word that names no mode. -/
def unknownMessage (word : String) : String :=
  "invalid color mode '" ++ word ++ "': expected auto, always or never"

/-- Reads a mode; blanks around it and the case of ASCII letters do not matter. -/
def parse (raw : String) : Except String ColorMode :=
  let word := Text.normalWord raw
  match ofName? word with
  | some mode => .ok mode
  | none => .error (unknownMessage word)

end ColorMode

/-- The looks that text can have. -/
inductive Style where
  | red
  | green
  | yellow
  | magenta
  | cyan
  | brightRed
  | brightCyan
  | bold
  | dim
  deriving DecidableEq, Repr

namespace Style

/-- The number that stands for a style in an escape sequence. -/
def code : Style → String
  | red => "31"
  | green => "32"
  | yellow => "33"
  | magenta => "35"
  | cyan => "36"
  | brightRed => "91"
  | brightCyan => "96"
  | bold => "1"
  | dim => "2"

/-- The escape sequence that turns a style on. -/
def start (s : Style) : String := "\x1b[" ++ s.code ++ "m"

/-- The escape sequence that turns every style off. -/
def reset : String := "\x1b[0m"

end Style

/-- Writes text with or without styles. -/
structure Painter where
  enabled : Bool := false
  deriving DecidableEq, Repr, Inhabited

namespace Painter

/-- The painter of a mode, for an output that is or is not a terminal. -/
def ofMode (mode : ColorMode) (terminal : Bool) : Painter :=
  match mode with
  | .always => ⟨true⟩
  | .never => ⟨false⟩
  | .auto => ⟨terminal⟩

/-- A text between an escape sequence and the end of all styles. -/
def wrap (p : Painter) (s code : String) : String :=
  if p.enabled then code ++ s ++ Style.reset else s

/-- A text in a style. -/
def paint (p : Painter) (style : Style) (s : String) : String := p.wrap s style.start

/-- What is not supported at all. -/
def critical (p : Painter) (s : String) : String := p.paint .brightRed s

/-- An error. -/
def error (p : Painter) (s : String) : String := p.paint .red s

/-- What is below the threshold. -/
def warn (p : Painter) (s : String) : String := p.paint .yellow s

/-- What is fine. -/
def ok (p : Painter) (s : String) : String := p.paint .green s

/-- A location. -/
def location (p : Painter) (s : String) : String := p.paint .cyan s

/-- A compatibility key. -/
def key (p : Painter) (s : String) : String := p.paint .magenta s

/-- The title of a section. -/
def header (p : Painter) (s : String) : String := p.paint .bold s

/-- A remark. -/
def dim (p : Painter) (s : String) : String := p.paint .dim s

/-- A count. -/
def number (p : Painter) (s : String) : String := p.paint .brightCyan s

/-- A message that all is well. -/
def statusOk (p : Painter) (message : String) : String := p.ok "[OK]" ++ " " ++ message

/-- A message that something failed. -/
def statusError (p : Painter) (message : String) : String := p.error "[ERROR]" ++ " " ++ message

end Painter

end BaselineAudit
