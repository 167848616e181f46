import BaselineAudit.Parsing.Parser

/-!
# The grammar of HTML documents

Elements with their tags and attributes. The names of tags are found by the scanner, which knows what
elements are open.
-/

namespace BaselineAudit.Html

open Parsing

/-- ASCII blanks. -/
def blanks : CharSet := .ofText "\t\n\x0b\x0c\r "

section Tokens

open Pattern

/-- A character reference. -/
def entity : Pattern :=
  let decimal := CharSet.range '0' '9'
  let hex := CharSet.unions [decimal, .range 'a' 'f', .range 'A' 'F']
  all [text "&",
    any
      [all [text "#",
          any [all [Pattern.set (.ofText "xX"), upTo 5 (Pattern.set hex)], upTo 4 (Pattern.set decimal)]],
        upTo 29 (Pattern.set .asciiLetter)],
    opt (text ";")]

/-- Text without blanks at its ends. -/
def content : Pattern :=
  let edge := CharSet.compl (.union (.ofText "<>&") blanks)
  all [Pattern.set edge, opt (all [star (Pattern.set (.except "<>&")), Pattern.set edge])]

/-- The tokens, by falling precedence among those of one kind. -/
def tokens : List Token :=
  [.text "<!",
    { id := "doctype_text", pattern := plus (Pattern.set (.except ">")) },
    .text ">",
    { id := "doctype_word", pattern := textAnyCase "doctype", label := some ⟨"doctype", false⟩ },
    .text "<", .text "/>", .text "</", .text "=",
    .named "attribute_name" (plus (Pattern.set (.compl (.union (.ofText "<>\"'/=") blanks)))),
    .named "attribute_value" (plus (Pattern.set (.compl (.union (.ofText "<>\"'=") blanks)))),
    .named "entity" entity,
    .text "'",
    { id := "single_quoted", pattern := plus (Pattern.set (.except "'"))
      label := some ⟨"attribute_value", true⟩ },
    .text "\"",
    { id := "double_quoted", pattern := plus (Pattern.set (.except "\""))
      label := some ⟨"attribute_value", true⟩ },
    .named "text" content]

end Tokens

/-- The tokens that the scanner finds, in the order of `TagToken`. -/
def externals : List External :=
  let tagName : Option Label := some ⟨"tag_name", true⟩
  [{ id := "start_tag_name", label := tagName },
    { id := "script_start_tag_name", label := tagName },
    { id := "style_start_tag_name", label := tagName },
    { id := "end_tag_name", label := tagName },
    { id := "erroneous_end_tag_name", label := some ⟨"erroneous_end_tag_name", true⟩ },
    { id := "self_closing", label := some ⟨"/>", false⟩, token := some "/>" },
    { id := "implicit_end_tag" },
    { id := "raw_text", label := some ⟨"raw_text", true⟩ },
    { id := "comment", label := some ⟨"comment", true⟩ }]

section Rules

open Body

/-- A token or rule. -/
def s (id : String) : Body := sym id

/-- A value between quotes. -/
def quoted (quote content : String) : Body := all [s quote, opt (s content), s quote]

/-- The rules. -/
def rules : List Rule :=
  [.shown "document" (many (s "node")),
    .shown "doctype" (all [s "<!", s "doctype_word", s "doctype_text", s ">"]),
    .hidden "node"
      (any [s "doctype", s "entity", s "text", s "element", s "script_element", s "style_element",
        s "erroneous_end_tag"]),
    .shown "element"
      (choice
        (all [s "start_tag", many (s "node"), choice (s "end_tag") (s "implicit_end_tag")])
        (s "self_closing_tag")),
    .shown "script_element" (all [s "script_start_tag", opt (s "raw_text"), s "end_tag"]),
    .shown "style_element" (all [s "style_start_tag", opt (s "raw_text"), s "end_tag"]),
    .shown "start_tag" (all [s "<", s "start_tag_name", many (s "attribute"), s ">"]),
    (Rule.shown "script_start_tag"
      (all [s "<", s "script_start_tag_name", many (s "attribute"), s ">"])).shownAs "start_tag",
    (Rule.shown "style_start_tag"
      (all [s "<", s "style_start_tag_name", many (s "attribute"), s ">"])).shownAs "start_tag",
    .shown "self_closing_tag"
      (all [s "<", s "start_tag_name", many (s "attribute"), s "/>"]),
    .shown "end_tag" (all [s "</", s "end_tag_name", s ">"]),
    .shown "erroneous_end_tag" (all [s "</", s "erroneous_end_tag_name", s ">"]),
    .shown "attribute"
      (all [s "attribute_name",
        opt (all [s "=", choice (s "attribute_value") (s "quoted_attribute_value")])]),
    .shown "quoted_attribute_value"
      (choice (quoted "'" "single_quoted") (quoted "\"" "double_quoted"))]

end Rules

/-- The grammar of HTML documents. Comments may stand anywhere. -/
def grammar : Grammar := { blanks, tokens, externals, rules, extras := ["comment"] }

end BaselineAudit.Html
