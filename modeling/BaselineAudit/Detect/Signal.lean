import BaselineAudit.Pattern.Basic

/-!
# Signals of languages

What texts in a language look like: for each language a few patterns, with a weight and a cap on how
often each of them counts.
-/

namespace BaselineAudit.Detect

/-- A pattern that speaks for a language. -/
structure Signal where
  pattern : Pattern
  weight : Nat
  /-- The greatest number of matches that count. -/
  cap : Nat
  deriving DecidableEq

/-- The patterns that speak for a language. -/
structure Profile where
  language : String
  signals : List Signal

section Words

open Pattern

/-- The start of a line. -/
def lineStart : Pattern := anchor .lineStart

/-- The end of a line. -/
def lineEnd : Pattern := anchor .lineEnd

/-- A character of a text. -/
def oneOf (s : String) : Pattern := set (.ofText s)

/-- A character that is in none of the texts. -/
def noneOf (s : String) : Pattern := set (.except s)

/-- Any characters up to the end of the line. -/
def anyInLine : Pattern := set .inLine

/-- One of several whole words. -/
def wholeWord (words : List String) : Pattern := all [edge, anyText words, edge]

/-- One of several whole words, in either case. -/
def wholeWordAnyCase (words : List String) : Pattern := all [edge, anyTextAnyCase words, edge]

/-- An upper-case ASCII letter and the rest of a word. -/
def capitalized : Pattern := all [set (.range 'A' 'Z'), star (set .word)]

/-- Characters of words and those of a text. -/
def wordOr (s : String) : Pattern := set (.union .word (.ofText s))

/-- Type parameters between angle brackets. -/
def angled : Pattern := all [text "<", star (noneOf ">"), text ">"]

/-- Signals of JavaScript. -/
def javascript : List Signal :=
  [⟨all [edge, anyText ["const", "let", "var"], gap, word, spaces, text "="], 2, 5⟩,
    ⟨text "=>", 1, 5⟩,
    ⟨wholeWord ["function"], 2, 3⟩,
    ⟨wholeWord ["return"], 1, 3⟩,
    ⟨all [edge, text "import", space, plus anyInLine, space, text "from", gap, oneOf "'\""], 3, 3⟩,
    ⟨all [edge, text "export", gap, anyText ["default", "const", "function", "class"], edge], 3, 3⟩,
    ⟨all [edge, text "console.", word, text "("], 3, 3⟩,
    ⟨all [edge, anyText ["document", "window"], text "."], 2, 3⟩,
    ⟨anyText ["===", "!=="], 2, 3⟩,
    ⟨all [edge, text "new", gap, capitalized, text "("], 1, 3⟩,
    ⟨wholeWord ["async", "await"], 1, 3⟩,
    ⟨all [edge, text "className="], 3, 3⟩,
    ⟨all [edge, text "use", anyText ["State", "Effect", "Memo", "Ref", "Callback"], text "("], 3, 3⟩]

/-- What TypeScript adds to JavaScript. -/
def typescriptOnly : List Signal :=
  [⟨all [text ":", spaces,
      anyText ["string", "number", "boolean", "any", "void", "unknown", "never"], edge], 3, 5⟩,
    ⟨all [edge, text "interface", gap, word, spaces, text "\x7b"], 4, 3⟩,
    ⟨all [edge, text "type", gap, word, spaces, text "="], 3, 3⟩,
    ⟨all [edge, text "as", gap, any [text "const", text "string", text "number", capitalized], edge],
      2, 3⟩,
    ⟨all [edge, anyText ["public", "private", "protected", "readonly"], gap, word], 2, 3⟩,
    ⟨all [edge, text "enum", gap, word, spaces, text "\x7b"], 3, 3⟩,
    ⟨all [word, text "?:", space], 2, 3⟩]

/-- Signals of Python. -/
def python : List Signal :=
  [⟨all [lineStart, spaces, text "def", gap, word, text "(", star anyInLine, text ")", spaces,
      opt (all [text "->", spaces, plus (wordOr "[], ")]), text ":"], 4, 5⟩,
    ⟨all [lineStart, spaces,
      opt (all [text "from", gap, set .word, star (wordOr "."), gap]),
      text "import", gap, set .word, star (wordOr "."), spaces, lineEnd], 2, 3⟩,
    ⟨all [edge, text "self."], 2, 3⟩,
    ⟨all [edge, text "print("], 1, 3⟩,
    ⟨all [text ":", spaces, lineEnd], 1, 5⟩,
    ⟨wholeWord ["elif"], 3, 3⟩,
    ⟨wholeWord ["None", "True", "False"], 1, 3⟩,
    ⟨all [text "__", word, text "__"], 2, 3⟩]

/-- Signals of Java. -/
def java : List Signal :=
  [⟨all [edge, text "public", gap, opt (all [text "static", gap]), opt (all [text "final", gap]),
      anyText ["class", "void", "int", "String"], edge], 4, 3⟩,
    ⟨text "System.out.print", 5, 3⟩,
    ⟨all [edge, text "import", gap, text "java."], 5, 3⟩,
    ⟨text "@Override", 4, 3⟩,
    ⟨all [edge, text "String[]"], 3, 3⟩]

/-- Signals of Go. -/
def go : List Signal :=
  [⟨all [lineStart, text "package", gap, word], 5, 1⟩,
    ⟨all [edge, text "func", gap,
      opt (all [text "(", word, gap, opt (text "*"), word, text ")", spaces]), word, text "("],
      4, 3⟩,
    ⟨text ":=", 2, 5⟩,
    ⟨all [edge, text "fmt.", word, text "("], 4, 3⟩,
    ⟨any [all [edge, text "go", gap, text "func", edge], wholeWord ["chan"], wholeWord ["defer"]],
      3, 3⟩]

/-- Signals of C++. -/
def cpp : List Signal :=
  [⟨all [text "#include", spaces, oneOf "<\"", plus (wordOr "./"), oneOf ">\""], 6, 3⟩,
    ⟨all [edge, text "std::"], 4, 3⟩,
    ⟨any [all [edge, text "cout", spaces, text "<<"], all [edge, text "cin", spaces, text ">>"]],
      4, 3⟩,
    ⟨all [edge, text "int", gap, text "main", spaces, text "("], 3, 1⟩,
    ⟨any [wholeWord ["nullptr"], all [edge, text "template", spaces, text "<"],
      all [edge, text "namespace", gap, word, spaces, text "\x7b"]], 3, 3⟩]

/-- Signals of C#. -/
def csharp : List Signal :=
  [⟨all [edge, text "using", gap, text "System"], 6, 3⟩,
    ⟨all [edge, text "namespace", gap, plus (wordOr ".")], 2, 1⟩,
    ⟨all [text "Console.Write", opt (text "Line"), text "("], 5, 3⟩,
    ⟨all [edge, anyText ["public", "private"], gap, opt (all [text "async", gap]),
      anyText ["Task", "void", "string", "int"], gap, word, text "("], 2, 3⟩,
    ⟨all [edge, text "var", gap, word, spaces, text "=", spaces, text "new", edge], 2, 3⟩,
    ⟨all [text "\x7b", spaces, text "get;", spaces, text "set;", spaces, text "\x7d"], 5, 3⟩]

/-- Signals of Rust. -/
def rust : List Signal :=
  [⟨all [edge, text "fn", gap, word, opt angled, spaces, text "("], 4, 3⟩,
    ⟨all [edge, text "let", gap, text "mut", edge], 5, 3⟩,
    ⟨all [edge, text "impl", edge, opt angled, gap, word], 3, 3⟩,
    ⟨all [edge, opt (all [text "pub", gap]), anyText ["struct", "enum", "trait"], gap, word], 2, 3⟩,
    ⟨anyText ["println!(", "format!(", "vec!["], 5, 3⟩,
    ⟨any [all [text "&mut", space], all [text "&self", edge], all [text "->", spaces, word]], 2, 3⟩,
    ⟨all [edge, text "use", gap, anyText ["std", "crate", "super"], text "::"], 5, 3⟩,
    ⟨text "::new(", 1, 3⟩]

/-- Signals of SQL. -/
def sql : List Signal :=
  [⟨all [wholeWordAnyCase ["select"], plus (set (.compl .none)), wholeWordAnyCase ["from"]], 5, 3⟩,
    ⟨all [edge,
      any [all [textAnyCase "insert", gap, textAnyCase "into"],
        all [textAnyCase "update", gap, word, gap, textAnyCase "set"],
        all [textAnyCase "delete", gap, textAnyCase "from"],
        all [textAnyCase "create", gap, textAnyCase "table"],
        all [textAnyCase "alter", gap, textAnyCase "table"]], edge], 6, 3⟩,
    ⟨wholeWordAnyCase ["where"], 1, 3⟩,
    ⟨all [edge, anyTextAnyCase ["inner", "left", "right", "outer"], gap, textAnyCase "join", edge],
      3, 3⟩,
    ⟨any [all [edge, textAnyCase "order", gap, textAnyCase "by", edge],
      all [edge, textAnyCase "group", gap, textAnyCase "by", edge]], 3, 3⟩]

/-- A value of an attribute, with or without quotes. -/
def attributeValue : Pattern :=
  any [all [text "\"", star (noneOf "\""), text "\""], all [text "'", star (noneOf "'"), text "'"],
    plus (set (.compl (.union .space (.one '>'))))]

/-- Signals of XML and HTML. -/
def xml : List Signal :=
  [⟨all [textAnyCase "<!DOCTYPE", gap, textAnyCase "html"], 10, 1⟩,
    ⟨all [text "<", anyTextAnyCase ["html", "head", "body"], edge], 4, 3⟩,
    ⟨all [text "<", set .asciiLetter, star (wordOr "-"),
      star (all [gap, plus (wordOr ":-"), opt (all [text "=", attributeValue])]),
      spaces, opt (text "/"), text ">"], 1, 8⟩,
    ⟨all [text "</", set .asciiLetter, star (wordOr "-"), text ">"], 1, 8⟩,
    ⟨all [text "<?xml", edge], 10, 1⟩]

/-- Signals of CSS. -/
def css : List Signal :=
  [⟨all [lineStart, spaces, opt (oneOf ".#"), set .asciiLetter, star (wordOr "-"),
      star (all [spaces, opt (oneOf ">+~,"), spaces, opt (oneOf ".#:"), plus (wordOr "-")]),
      spaces, text "\x7b"], 2, 5⟩,
    ⟨all [lineStart, spaces, plus (set (.union (.range 'a' 'z') (.one '-'))), spaces, text ":",
      spaces, plus (noneOf ";\x7b\x7d"), text ";", spaces, lineEnd], 1, 8⟩,
    ⟨all [text "@",
      anyText ["media", "import", "keyframes", "supports", "font-face", "container", "layer"],
      edge], 3, 3⟩,
    ⟨text "!important", 2, 3⟩,
    ⟨all [edge, plus (set .digit), anyText ["px", "rem", "em", "vh", "vw", "%"]], 1, 5⟩]

/-- Signals of PHP. -/
def php : List Signal :=
  [⟨text "<?php", 10, 1⟩,
    ⟨all [text "$", word, spaces, text "="], 2, 3⟩,
    ⟨wholeWord ["echo"], 2, 3⟩,
    ⟨all [text "->", word, text "("], 1, 3⟩,
    ⟨all [edge, text "function", gap, word, spaces, text "(", spaces, text "$"], 4, 3⟩]

/-- Signals of JSON. -/
def json : List Signal :=
  [⟨all [lineStart, spaces, text "\"", plus (noneOf "\""), text "\"", spaces, text ":"], 2, 5⟩]

/-- Signals of shell scripts. -/
def bash : List Signal :=
  [⟨all [lineStart, text "#!/", opt (text "usr/"), text "bin/", opt (all [text "env", gap]),
      opt (any [text "ba", text "z"]), text "sh"], 10, 1⟩,
    ⟨all [lineStart, spaces, opt (all [text "sudo", gap]),
      anyText ["apt", "apt-get", "brew", "npm", "npx", "yarn", "pnpm", "pip", "cargo", "git", "cd",
        "ls", "echo", "mkdir", "rm", "curl", "chmod"], space], 2, 5⟩,
    ⟨all [text "$", opt (text "\x7b"), word, opt (text "\x7d")], 1, 3⟩,
    ⟨all [lineStart, spaces, anyText ["then", "fi", "do", "done", "esac"], edge], 2, 3⟩,
    ⟨all [text "|", spaces, anyText ["grep", "awk", "sed", "xargs"], edge], 3, 3⟩]

/-- Signals of YAML. -/
def yaml : List Signal :=
  [⟨all [lineStart, spaces, plus (wordOr "-"), text ":", gap, plus (noneOf "\x7b\x7d;"), lineEnd],
      1, 8⟩,
    ⟨all [lineStart, spaces, text "-", gap, set .word], 1, 5⟩,
    ⟨all [lineStart, text "---", spaces, lineEnd], 3, 1⟩,
    ⟨all [lineStart, plus (wordOr "-"), text ":", spaces, lineEnd], 2, 3⟩]

/-- Signals of Markdown. -/
def markdown : List Signal :=
  [⟨all [lineStart, upTo 5 (text "#"), gap, set (.compl .space)], 3, 3⟩,
    ⟨all [lineStart, spaces, oneOf "-*+", gap, set (.compl .space)], 1, 5⟩,
    ⟨all [text "[", plus (noneOf "]"), text "](", plus (noneOf ")"), text ")"], 3, 3⟩,
    ⟨all [lineStart, text "```"], 3, 2⟩,
    ⟨all [text "**", plus (noneOf "*"), text "**"], 2, 3⟩]

end Words

/-- The languages that are told apart, in the order in which they are considered. -/
def profiles : List Profile :=
  [⟨"javascript", javascript⟩, ⟨"python", python⟩, ⟨"java", java⟩, ⟨"go", go⟩, ⟨"cpp", cpp⟩,
    ⟨"csharp", csharp⟩, ⟨"rust", rust⟩, ⟨"sql", sql⟩, ⟨"xml", xml⟩, ⟨"css", css⟩, ⟨"php", php⟩,
    ⟨"json", json⟩, ⟨"bash", bash⟩, ⟨"yaml", yaml⟩, ⟨"markdown", markdown⟩]

end BaselineAudit.Detect
