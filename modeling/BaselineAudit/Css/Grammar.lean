import BaselineAudit.Parsing.Parser

/-!
# The grammar of style sheets

Rules, at-rules, selectors, queries and declarations with their values. A declaration at the end of a
block may lack its semicolon. Whether a colon belongs to a selector, and whether a blank stands for
the descendant combinator, cannot be told from the next token alone; the scanner finds out.
-/

namespace BaselineAudit.Css

open Parsing

/-- ASCII blanks. -/
def blanks : CharSet := .ofText "\t\n\x0b\x0c\r "

section Tokens

open Pattern

/-- A decimal digit. -/
def digit : Pattern := set (.range '0' '9')

/-- A hexadecimal digit. -/
def hexDigit : Pattern := set (.unions [.range '0' '9', .range 'a' 'f', .range 'A' 'F'])

/-- An optional sign. -/
def sign : Pattern := opt (set (.ofText "+-"))

/-- An exponent. -/
def exponent : Pattern := all [set (.ofText "eE"), opt (text "-"), plus digit]

/-- A character with its backslash. -/
def escaped : Pattern := all [text "\\", set .inLine]

/-- The content of a string between quotes. -/
def stringContent (quote : String) : Pattern :=
  plus (any [set (.except ("\\\n" ++ quote)), all [text "\\", set (.compl .none)]])

/-- What ends a plain value. -/
def valueEnd : CharSet := .union blanks (.ofText ",;!\x7b\x7d()[]")

/-- A slash inside a plain value, which starts no comment. -/
def innerSlash : Pattern := all [text "/", set (.compl (.union valueEnd (.one '*')))]

/-- Characters with which identifiers can start. -/
def nameStart : CharSet := .unions [.asciiLetter, .one '_', .range '\xa0' '\xff']

/-- Characters of identifiers. -/
def nameChar : CharSet := .unions [.asciiLetter, .range '0' '9', .ofText "-_", .range '\xa0' '\xff']

/-- An identifier. -/
def identifier : Pattern :=
  all [any [text "--", all [opt (text "-"), set nameStart]], star (set nameChar)]

/-- A comment. -/
def comment : Pattern :=
  all [text "/*", star (set (.except "*")), plus (text "*"),
    star (all [set (.except "/*"), star (set (.except "*")), plus (text "*")]), text "/"]

/-- The tokens, by falling precedence among those of one kind. -/
def tokens : List Token :=
  [.text "@import", .text ",", .text ";", .text "@media", .text "@charset", .text "@namespace",
    .text "@keyframes",
    { id := "prefixed_keyframes"
      pattern := all [text "@", plus (set (.union (.range 'a' 'z') (.one '-'))), text "keyframes"]
      label := some ⟨"at_keyword", true⟩ },
    .text "\x7b", .text "\x7d", .textAs "from" "from", .textAs "to" "to", .text "@supports",
    .textAs "&" "nesting_selector", .text "*", .text ".", .textAs "has" "class_name", .text "not",
    .textAs "is" "class_name", .textAs "where" "class_name", .textAs "host" "class_name",
    .textAs "host-context" "class_name", .textAs "nth-child" "class_name",
    .textAs "nth-last-child" "class_name", .text "::", .text "#",
    { Token.text "[" with id := "selector_bracket", precedence := 1 },
    .text "=", .text "~=", .text "^=", .text "|=", .text "*=", .text "$=", .text "]", .text ">",
    .text "~", .text "+", .text "|",
    { Token.text "(" with id := "immediate_paren", immediate := true },
    .text ")", .textAs "even" "plain_value", .textAs "odd" "plain_value", .text "of",
    { id := "nth_notation"
      pattern := all [opt (text "-"), star digit, text "n", star (set blanks),
        opt (all [text "+", star (set blanks), plus digit])]
      label := some ⟨"plain_value", true⟩ },
    .text ":", .textAs "!important" "important", .text "(", .text "and", .text "or", .text "only",
    .text "selector",
    { id := "hex_digits"
      pattern := all [hexDigit, hexDigit, upTo 5 hexDigit]
      immediate := true },
    .text "'",
    { id := "single_quoted", pattern := stringContent "'", label := some ⟨"string_content", true⟩ },
    .text "\"",
    { id := "double_quoted", pattern := stringContent "\"", label := some ⟨"string_content", true⟩ },
    .named "escape_sequence" escaped,
    { id := "integer", pattern := all [sign, plus digit] },
    { id := "decimal"
      pattern := all [sign, star digit,
        any [all [text ".", plus digit], exponent, all [text ".", plus digit, exponent]]] },
    { Token.named "unit" (plus (set (.union .asciiLetter (.one '%')))) with immediate := true },
    .text "[", .text "-", .text "/",
    .named "identifier" identifier,
    .named "at_keyword" (all [text "@", plus (set (.union .asciiLetter (.ofText "-_")))]),
    { Token.named "js_comment" (all [text "//", star (set .inLine)]) with precedence := -1 },
    .named "comment" comment,
    .named "plain_value"
      (all [star (any [set (.ofText "-_"), innerSlash]), set .asciiLetter,
        star (any [set (.compl (.union valueEnd (.one '/'))), innerSlash])])]

end Tokens

/-- The tokens that the scanner finds. The last one is looked for only after an error. -/
def externals : List External :=
  [{ id := "descendant_operator" }, { id := "selector_colon", label := some ⟨":", false⟩ },
    { id := "error_recovery" }]

section Rules

open Body

/-- A token or rule. -/
def s (id : String) : Body := sym id

/-- An identifier that is shown under another name. -/
def idAs (name : String) : Body := renamed ⟨name, true⟩ (s "identifier")

/-- An optional selector, in front of a part that narrows it down. -/
def narrowed : Body := opt (s "selector_")

/-- What can stand in a block as well as at the top of a style sheet. -/
def statements : List Body :=
  [s "declaration", s "rule_set", s "import_statement", s "media_statement", s "charset_statement",
    s "namespace_statement", s "keyframes_statement", s "supports_statement"]

/-- A list of selectors or values in parentheses. -/
def selectorOrValues : Body :=
  all [s "immediate_paren", sepBy (s ",") (choice (s "selector_") (repeat1 (s "value_"))), s ")"]

/-- A declaration up to its semicolon. -/
def declarationBody : List Body :=
  [idAs "property_name", s ":", s "value_", many (all [opt (s ","), s "value_"]),
    opt (s "!important")]

/-- The rules. -/
def rules : List Rule :=
  [.shown "stylesheet" (many (any (statements ++ [s "at_rule"]))),
    .shown "import_statement" (all [s "@import", s "value_", sepBy (s ",") (s "query_"), s ";"]),
    .shown "media_statement" (all [s "@media", sepBy1 (s ",") (s "query_"), s "block"]),
    .shown "charset_statement" (all [s "@charset", s "value_", s ";"]),
    .shown "namespace_statement"
      (all [s "@namespace", opt (idAs "namespace_name"),
        choice (s "string_value") (s "call_expression"), s ";"]),
    .shown "keyframes_statement"
      (all [choice (s "@keyframes") (s "prefixed_keyframes"), idAs "keyframes_name",
        s "keyframe_block_list"]),
    .shown "keyframe_block_list" (all [s "\x7b", many (s "keyframe_block"), s "\x7d"]),
    .shown "keyframe_block" (all [any [s "from", s "to", s "integer_value"], s "block"]),
    .shown "supports_statement" (all [s "@supports", s "query_", s "block"]),
    (Rule.shown "postcss_statement" (all [s "at_keyword", many (s "value_"), s ";"])).withPrecedence
      (-1),
    .shown "at_rule"
      (all [s "at_keyword", sepBy (s ",") (s "query_"), choice (s ";") (s "block")]),
    .shown "rule_set" (all [s "selectors", s "block"]),
    .shown "selectors" (sepBy1 (s ",") (s "selector_")),
    .shown "block"
      (all [s "\x7b", many (any (statements ++ [s "postcss_statement", s "at_rule"])),
        opt (renamed ⟨"declaration", true⟩ (s "last_declaration")), s "\x7d"]),
    .hidden "selector_"
      (any [s "universal_selector", idAs "tag_name", s "class_selector", s "&",
        s "pseudo_class_selector", s "pseudo_element_selector", s "id_selector",
        s "attribute_selector", s "string_value", s "child_selector", s "descendant_selector",
        s "sibling_selector", s "adjacent_sibling_selector", s "namespace_selector"]),
    .shown "universal_selector" (s "*"),
    (Rule.shown "class_selector" (all [narrowed, s ".", s "class_name"])).withPrecedence 1,
    .shown "class_name" (repeat1 (choice (s "identifier") (s "escape_sequence"))),
    .shown "pseudo_class_selector"
      (all [narrowed, s "selector_colon",
        any
          [all [any [s "has", renamed ⟨"class_name", true⟩ (s "not"), s "is", s "where", s "host",
              s "host-context"], s "selector_arguments"],
            all [any [s "nth-child", s "nth-last-child"], s "nth_arguments"],
            all [idAs "class_name", opt (s "pseudo_class_arguments")]]]),
    .shown "pseudo_element_selector"
      (all [narrowed, s "::", idAs "tag_name", opt (s "pseudo_element_arguments")]),
    .shown "id_selector" (all [narrowed, s "#", idAs "id_name"]),
    .shown "attribute_selector"
      (all [narrowed, s "selector_bracket",
        renamed ⟨"attribute_name", true⟩ (choice (s "identifier") (s "namespace_selector")),
        opt (all [any [s "=", s "~=", s "^=", s "|=", s "*=", s "$="], s "value_"]), s "]"]),
    (Rule.shown "child_selector" (all [narrowed, s ">", s "selector_"])).groupingLeft,
    (Rule.shown "descendant_selector"
      (all [s "selector_", s "descendant_operator", s "selector_"])).groupingLeft,
    (Rule.shown "sibling_selector" (all [narrowed, s "~", s "selector_"])).groupingLeft,
    (Rule.shown "adjacent_sibling_selector" (all [narrowed, s "+", s "selector_"])).groupingLeft,
    (Rule.shown "namespace_selector" (all [s "selector_", s "|", s "selector_"])).groupingLeft,
    (Rule.shown "pseudo_class_arguments" selectorOrValues).shownAs "arguments",
    (Rule.shown "selector_arguments"
      (all [s "immediate_paren", sepBy (s ",") (s "selector_"), s ")"])).shownAs "arguments",
    ((Rule.shown "nth_arguments"
      (all [s "immediate_paren", any [s "even", s "odd", s "integer_value", s "nth_notation"],
        opt (all [s "of", s "selector_"]), s ")"])).withPrecedence (-1)).shownAs "arguments",
    (Rule.shown "pseudo_element_arguments" selectorOrValues).shownAs "arguments",
    .shown "declaration" (all (declarationBody ++ [s ";"])),
    (Rule.shown "last_declaration" (all declarationBody)).withPrecedence 1,
    .hidden "query_"
      (any [idAs "keyword_query", s "feature_query", s "binary_query", s "unary_query",
        s "selector_query", s "parenthesized_query"]),
    .shown "feature_query"
      (all [s "(", idAs "feature_name", s ":", repeat1 (s "value_"), s ")"]),
    .shown "parenthesized_query" (all [s "(", s "query_", s ")"]),
    (Rule.shown "binary_query"
      (all [s "query_", choice (s "and") (s "or"), s "query_"])).groupingLeft,
    (Rule.shown "unary_query" (all [choice (s "not") (s "only"), s "query_"])).withPrecedence 1,
    .shown "selector_query" (all [s "selector", s "(", s "selector_", s ")"]),
    (Rule.hidden "value_"
      (any [idAs "plain_value", s "plain_value", s "color_value", s "integer_value",
        s "float_value", s "string_value", s "grid_value", s "binary_expression",
        s "parenthesized_value", s "call_expression", s "!important"])).withPrecedence (-1),
    .shown "parenthesized_value" (all [s "(", s "value_", s ")"]),
    .shown "color_value" (all [s "#", s "hex_digits"]),
    .shown "string_value"
      (choice
        (all [s "'", many (choice (s "single_quoted") (s "escape_sequence")), s "'"])
        (all [s "\"", many (choice (s "double_quoted") (s "escape_sequence")), s "\""])),
    .shown "integer_value" (all [s "integer", opt (s "unit")]),
    .shown "float_value" (all [s "decimal", opt (s "unit")]),
    .shown "grid_value" (all [s "[", sepBy1 (s ",") (s "value_"), s "]"]),
    .shown "call_expression" (all [idAs "function_name", s "arguments"]),
    (Rule.shown "binary_expression"
      (all [s "value_", any [s "+", s "-", s "*", s "/"], s "value_"])).groupingLeft,
    .shown "arguments"
      (all [s "immediate_paren", sepBy (choice (s ",") (s ";")) (repeat1 (s "value_")), s ")"])]

end Rules

/-- The grammar of style sheets. Comments may stand anywhere. -/
def grammar : Grammar :=
  { blanks, tokens, externals, rules, extras := ["comment", "js_comment"] }

end BaselineAudit.Css
