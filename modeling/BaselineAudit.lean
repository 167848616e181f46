import BaselineAudit.Accessibility
import BaselineAudit.Audit.Analysis
import BaselineAudit.Audit.Collector
import BaselineAudit.Audit.Route
import BaselineAudit.Command.Help
import BaselineAudit.Command.Options
import BaselineAudit.Command.Run
import BaselineAudit.Component.Bindings
import BaselineAudit.Component.Property
import BaselineAudit.Component.Styles
import BaselineAudit.Component.Template
import BaselineAudit.Component.Value
import BaselineAudit.Css.Declarations
import BaselineAudit.Css.Grammar
import BaselineAudit.Css.Scanner
import BaselineAudit.Detect.Basic
import BaselineAudit.Detect.Signal
import BaselineAudit.Feature.Catalog
import BaselineAudit.Feature.KeyIndex
import BaselineAudit.Feature.Level
import BaselineAudit.Feature.Resolver
import BaselineAudit.Feature.Status
import BaselineAudit.File.Basic
import BaselineAudit.File.Directory
import BaselineAudit.File.Path
import BaselineAudit.Html.Document
import BaselineAudit.Html.Grammar
import BaselineAudit.Html.Scanner
import BaselineAudit.Html.Tag
import BaselineAudit.Json.Basic
import BaselineAudit.Json.Printer
import BaselineAudit.Json.Reader
import BaselineAudit.Main
import BaselineAudit.Number.Double
import BaselineAudit.Number.Numeral
import BaselineAudit.Parsing.Automaton
import BaselineAudit.Parsing.Grammar
import BaselineAudit.Parsing.Lexicon
import BaselineAudit.Parsing.Parser
import BaselineAudit.Parsing.Stack
import BaselineAudit.Parsing.Table
import BaselineAudit.Parsing.Tree
import BaselineAudit.Pattern.Basic
import BaselineAudit.Proofs.Accessibility.Images
import BaselineAudit.Proofs.Audit.Acceptance
import BaselineAudit.Proofs.Audit.Breakdown
import BaselineAudit.Proofs.Audit.Counts
import BaselineAudit.Proofs.Audit.DataSets
import BaselineAudit.Proofs.Audit.Keys
import BaselineAudit.Proofs.Audit.Mixed
import BaselineAudit.Proofs.Audit.Parts
import BaselineAudit.Proofs.Audit.Recording
import BaselineAudit.Proofs.Audit.Routing
import BaselineAudit.Proofs.Audit.Soundness
import BaselineAudit.Proofs.Command.Arguments
import BaselineAudit.Proofs.Command.Exit
import BaselineAudit.Proofs.Component.Arithmetic
import BaselineAudit.Proofs.Component.Bindings
import BaselineAudit.Proofs.Component.Comments
import BaselineAudit.Proofs.Component.Interpolation
import BaselineAudit.Proofs.Component.Places
import BaselineAudit.Proofs.Component.PropertyName
import BaselineAudit.Proofs.Component.Resolution
import BaselineAudit.Proofs.Component.StyleObject
import BaselineAudit.Proofs.Component.Suppression
import BaselineAudit.Proofs.Component.Template
import BaselineAudit.Proofs.Css.Comments
import BaselineAudit.Proofs.Css.Declarations
import BaselineAudit.Proofs.Css.Order
import BaselineAudit.Proofs.Detect.Classification
import BaselineAudit.Proofs.Feature.Catalog
import BaselineAudit.Proofs.Feature.Index
import BaselineAudit.Proofs.Feature.Status
import BaselineAudit.Proofs.Html.Blocks
import BaselineAudit.Proofs.Json.Slots
import BaselineAudit.Proofs.Json.Table
import BaselineAudit.Proofs.Number.Integers
import BaselineAudit.Proofs.Parsing.Automaton
import BaselineAudit.Proofs.Parsing.Completion
import BaselineAudit.Proofs.Parsing.Cover
import BaselineAudit.Proofs.Parsing.Derivation
import BaselineAudit.Proofs.Parsing.Items
import BaselineAudit.Proofs.Parsing.Lexing
import BaselineAudit.Proofs.Parsing.Longest
import BaselineAudit.Proofs.Parsing.Reading
import BaselineAudit.Proofs.Parsing.Recovery
import BaselineAudit.Proofs.Parsing.Run
import BaselineAudit.Proofs.Parsing.Shape
import BaselineAudit.Proofs.Parsing.Stack
import BaselineAudit.Proofs.Parsing.States
import BaselineAudit.Proofs.Parsing.Table
import BaselineAudit.Proofs.Parsing.Walk
import BaselineAudit.Proofs.Pattern.Matching
import BaselineAudit.Proofs.Report.Collector
import BaselineAudit.Proofs.Report.Distinct
import BaselineAudit.Proofs.Report.Exchange
import BaselineAudit.Proofs.Report.Listing
import BaselineAudit.Proofs.Report.Merging
import BaselineAudit.Proofs.Report.Ranking
import BaselineAudit.Proofs.Report.Summary
import BaselineAudit.Proofs.Report.Tally
import BaselineAudit.Proofs.Script.Expressions
import BaselineAudit.Proofs.Script.Functions
import BaselineAudit.Proofs.Script.Layout
import BaselineAudit.Proofs.Script.Lexer
import BaselineAudit.Proofs.Script.Statements
import BaselineAudit.Proofs.Script.Steps
import BaselineAudit.Proofs.Script.Types
import BaselineAudit.Proofs.Script.Usages
import BaselineAudit.Proofs.Terminal.Colours
import BaselineAudit.Proofs.Text.Letters
import BaselineAudit.Proofs.Text.Location
import BaselineAudit.Proofs.Text.Lookup
import BaselineAudit.Proofs.Text.Order
import BaselineAudit.Proofs.Text.Strict
import BaselineAudit.Proofs.Text.Words
import BaselineAudit.Report.Basic
import BaselineAudit.Report.Issue
import BaselineAudit.Report.Listing
import BaselineAudit.Report.Score
import BaselineAudit.Script.Lexer
import BaselineAudit.Script.Number
import BaselineAudit.Script.Parser
import BaselineAudit.Script.Parser.Basic
import BaselineAudit.Script.Parser.Binding
import BaselineAudit.Script.Parser.Declaration
import BaselineAudit.Script.Parser.Expression
import BaselineAudit.Script.Parser.Function
import BaselineAudit.Script.Parser.Markup
import BaselineAudit.Script.Parser.Module
import BaselineAudit.Script.Parser.Statement
import BaselineAudit.Script.Parser.Target
import BaselineAudit.Script.Parser.Type
import BaselineAudit.Script.Token
import BaselineAudit.Script.Tree
import BaselineAudit.Script.Usages
import BaselineAudit.Settings
import BaselineAudit.Terminal.Paint
import BaselineAudit.Text.Blank
import BaselineAudit.Text.Case
import BaselineAudit.Text.Letter
import BaselineAudit.Text.Location
import BaselineAudit.Text.Slice
import BaselineAudit.Text.Words
import BaselineAudit.Toml.Basic
import BaselineAudit.Toml.Document
import BaselineAudit.Toml.Quoted
import BaselineAudit.Toml.Scalar
