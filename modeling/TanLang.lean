import TanLang.Command
import TanLang.Command.Flags
import TanLang.Command.Wording
import TanLang.Decimal.Binary64
import TanLang.Decimal.Notation
import TanLang.Decimal.Reading
import TanLang.Decimal.Shortest
import TanLang.Diagnostic
import TanLang.Eval
import TanLang.Expr
import TanLang.Fault
import TanLang.Files
import TanLang.Files.Failure
import TanLang.Heap
import TanLang.Heap.Object
import TanLang.Integer
import TanLang.Log
import TanLang.Machine
import TanLang.Main
import TanLang.Native
import TanLang.Native.Database
import TanLang.Parser
import TanLang.Parser.Expression
import TanLang.Parser.Statement
import TanLang.Program
import TanLang.Program.Outline
import TanLang.Program.Printer
import TanLang.Prompt
import TanLang.Proofs.Grammar
import TanLang.Proofs.Parsing.Acceptance
import TanLang.Proofs.Parsing.Completeness
import TanLang.Proofs.Parsing.Completeness.Statement
import TanLang.Proofs.Parsing.Contract
import TanLang.Proofs.Parsing.Soundness
import TanLang.Proofs.Scoping.Context
import TanLang.Scoping
import TanLang.Session
import TanLang.Settings
import TanLang.Settings.Scalar
import TanLang.Settings.Toml
import TanLang.Settings.Toml.Document
import TanLang.Settings.Toml.Line
import TanLang.Settings.Toml.Number
import TanLang.Settings.Toml.Quotation
import TanLang.Settings.Yaml
import TanLang.Settings.Yaml.Block
import TanLang.Settings.Yaml.Characters
import TanLang.Settings.Yaml.Cursor
import TanLang.Settings.Yaml.Meaning
import TanLang.Settings.Yaml.Node
import TanLang.Settings.Yaml.Plain
import TanLang.Settings.Yaml.Quotation
import TanLang.Settings.Yaml.Tag
import TanLang.Settings.Yaml.Token
import TanLang.Source.Piece
import TanLang.Stmt
import TanLang.Table
import TanLang.Text
import TanLang.Text.Excerpt
import TanLang.Text.Glyph
import TanLang.Text.Letter
import TanLang.Text.Lower
import TanLang.Text.Printable
import TanLang.Text.Quoted
import TanLang.Token
import TanLang.Value
import TanLang.Value.Operator
import TanLang.Proofs.Evaluation.Store
import TanLang.Proofs.Evaluation.Preservation
import TanLang.Proofs.Evaluation.Agreement
import TanLang.Proofs.Scoping.Core
import TanLang.Proofs.Scoping.Order
import TanLang.Proofs.Scoping.Resolution
import TanLang.Proofs.Source.Words
import TanLang.Proofs.Session.Compiled
import TanLang.Proofs.Session.Scopes
import TanLang.Proofs.Lines
import TanLang.Proofs.Parsing.Lines
import TanLang.Proofs.Scoping.Lexical
import TanLang.Proofs.Scoping.Lines
import TanLang.Proofs.Source.Glyphs
import TanLang.Proofs.Source.Seam
import TanLang.Proofs.Evaluation.Lines
import TanLang.Proofs.Session.Units
import TanLang.Proofs.Evaluation.Conduct
import TanLang.Proofs.Session.Unwinding
import TanLang.Proofs.Session.Provenance
import TanLang.Proofs.Session.Excerpts
import TanLang.Proofs.Session.Safety
import TanLang.Proofs.Source.Gaps
import TanLang.Proofs.Source.Spelling
import TanLang.Proofs.Session.Rejection
import TanLang.Proofs.Source.Layout
import TanLang.Proofs.Parsing.Flattening
import TanLang.Proofs.Parsing.Stratified
import TanLang.Proofs.Parsing.Faithful
import TanLang.Proofs.Renaming
import TanLang.Proofs.Heap.Renaming
import TanLang.Proofs.Evaluation.Renaming
import TanLang.Proofs.Scoping.Renaming
import TanLang.Proofs.Parsing.Renaming
import TanLang.Proofs.Source.Renaming
import TanLang.Proofs.Session.Renaming
import TanLang.Proofs.Evaluation.Cutting
import TanLang.Proofs.Evaluation.Anatomy
import TanLang.Proofs.Session.Overflow
import TanLang.Proofs.Session.Locations
import TanLang.Proofs.Scoping.Receivers
import TanLang.Proofs.Evaluation.Effects
import TanLang.Proofs.Source.Counting
import TanLang.Proofs.Evaluation.Termination
import TanLang.Proofs.Evaluation.Grounding
import TanLang.Proofs.Session.Termination
import TanLang.Proofs.Heap.WritingOut
import TanLang.Proofs.Evaluation.Meeting
import TanLang.Proofs.Evaluation.WritingOut
import TanLang.Proofs.Scoping.WritingOut
import TanLang.Proofs.Session.WritingOut
import TanLang.Proofs.Heap.Receivers
import TanLang.Proofs.Evaluation.Receivers
import TanLang.Proofs.Evaluation.Methods
import TanLang.Proofs.Session.Receivers
import TanLang.Proofs.Parsing.Places
import TanLang.Proofs.Parsing.Recovery
import TanLang.Proofs.Parsing.Appending
import TanLang.Proofs.Heap.Changes
import TanLang.Proofs.Heap.Outwards
import TanLang.Proofs.Evaluation.Changes
import TanLang.Proofs.Evaluation.Assignments
import TanLang.Proofs.Session.Grounding
import TanLang.Proofs.Session.Assignments
import TanLang.Proofs.Heap.Bindings
import TanLang.Proofs.Heap.Ancestry
import TanLang.Proofs.Heap.Properties
import TanLang.Proofs.Evaluation.Properties
import TanLang.Proofs.Printing.Forms
import TanLang.Proofs.Printing.Quoted
import TanLang.Proofs.Printing.Numerals
import TanLang.Proofs.Source.Lexemes
import TanLang.Proofs.Printing.Expressions
import TanLang.Proofs.Printing.Programs
