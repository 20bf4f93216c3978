import VibeLens.Assist.Catalog
import VibeLens.Assist.Completion
import VibeLens.Assist.Hover
import VibeLens.Command.Arguments
import VibeLens.Command.Perform
import VibeLens.Command.Request
import VibeLens.Datum.Basic
import VibeLens.Datum.Dump
import VibeLens.Datum.Record
import VibeLens.Datum.Scalar
import VibeLens.Datum.Verdict
import VibeLens.Diagnostic.Basic
import VibeLens.Diagnostic.Locate
import VibeLens.Expression
import VibeLens.Failure
import VibeLens.Files.Host
import VibeLens.Files.Lookup
import VibeLens.Files.Path
import VibeLens.Files.Program
import VibeLens.Files.Resolve
import VibeLens.Files.System
import VibeLens.Files.Tree
import VibeLens.Glob
import VibeLens.Json.Basic
import VibeLens.Json.Printer
import VibeLens.Main
import VibeLens.Number.Double
import VibeLens.Number.Numeral
import VibeLens.Number.Word
import VibeLens.Outline.Line
import VibeLens.Outline.Scan
import VibeLens.Proofs.Assist.Hover
import VibeLens.Proofs.Command.Locate
import VibeLens.Proofs.Command.Outline
import VibeLens.Proofs.Command.OutlineForms
import VibeLens.Proofs.Command.OutlineText
import VibeLens.Proofs.Command.Settings
import VibeLens.Proofs.Datum.Normal
import VibeLens.Proofs.Datum.Verdict
import VibeLens.Proofs.Diagnostic.Coordinates
import VibeLens.Proofs.Diagnostic.Grammar
import VibeLens.Proofs.Diagnostic.Messages
import VibeLens.Proofs.Diagnostic.Reading
import VibeLens.Proofs.Document.Reading
import VibeLens.Proofs.Editor.Forest
import VibeLens.Proofs.Editor.Range
import VibeLens.Proofs.Files.Canonical
import VibeLens.Proofs.Files.Following
import VibeLens.Proofs.Files.Grounded
import VibeLens.Proofs.Files.Growing
import VibeLens.Proofs.Files.Listing
import VibeLens.Proofs.Files.Names
import VibeLens.Proofs.Files.Writing
import VibeLens.Proofs.Json.Alike
import VibeLens.Proofs.Json.Compact
import VibeLens.Proofs.Json.Reader
import VibeLens.Proofs.Json.RoundTrip
import VibeLens.Proofs.Json.Tokens
import VibeLens.Proofs.Outline.BlockMatching
import VibeLens.Proofs.Outline.ClosedForm
import VibeLens.Proofs.Outline.Composition
import VibeLens.Proofs.Outline.DocumentSymbol
import VibeLens.Proofs.Outline.Forest
import VibeLens.Proofs.Outline.Growth
import VibeLens.Proofs.Outline.Indentation
import VibeLens.Proofs.Outline.Insertion
import VibeLens.Proofs.Outline.Laminar
import VibeLens.Proofs.Outline.LineGrammar
import VibeLens.Proofs.Outline.Listing
import VibeLens.Proofs.Outline.Naming
import VibeLens.Proofs.Outline.Nesting
import VibeLens.Proofs.Outline.Quoting
import VibeLens.Proofs.Outline.Recognition
import VibeLens.Proofs.Outline.Relocation
import VibeLens.Proofs.Outline.Stack
import VibeLens.Proofs.Run.Reading
import VibeLens.Proofs.Session.Isolation
import VibeLens.Proofs.Session.Keys
import VibeLens.Proofs.Session.Outcome
import VibeLens.Proofs.Session.Overlap
import VibeLens.Proofs.Session.Supersession
import VibeLens.Proofs.Store.Isolation
import VibeLens.Proofs.Store.Observers
import VibeLens.Proofs.Text.Breaks
import VibeLens.Proofs.Text.Encoding
import VibeLens.Proofs.Text.Order
import VibeLens.Proofs.Text.Runs
import VibeLens.Proofs.Text.Trimming
import VibeLens.Proofs.Toml.LongNumeral
import VibeLens.Proofs.Workspace.Confinement
import VibeLens.Proofs.Workspace.Footprint
import VibeLens.Proofs.Workspace.Indexing
import VibeLens.Proofs.Workspace.Pruning
import VibeLens.Proofs.Workspace.Record
import VibeLens.Proofs.Workspace.Reindexing
import VibeLens.Proofs.Workspace.Rescan
import VibeLens.Proofs.Workspace.Rules
import VibeLens.Proofs.Workspace.Scanned
import VibeLens.Proofs.Workspace.SourceScan
import VibeLens.Run.Child
import VibeLens.Run.Interpreter
import VibeLens.Session
import VibeLens.Settings.Basic
import VibeLens.Settings.Load
import VibeLens.Settings.Wording
import VibeLens.Shell.Arithmetic
import VibeLens.Shell.Builtin
import VibeLens.Shell.Condition
import VibeLens.Shell.Eval
import VibeLens.Shell.Fields
import VibeLens.Shell.Format
import VibeLens.Shell.Lexer
import VibeLens.Shell.Parser
import VibeLens.Shell.State
import VibeLens.Shell.Syntax
import VibeLens.Store
import VibeLens.Symbol
import VibeLens.Table
import VibeLens.Text.Blank
import VibeLens.Text.Digit
import VibeLens.Text.Lines
import VibeLens.Text.Printable
import VibeLens.Text.Quoted
import VibeLens.Text.Ranges
import VibeLens.Text.Utf8
import VibeLens.Text.Word
import VibeLens.Toml.Document
import VibeLens.Toml.Scalar
import VibeLens.Toml.Text
import VibeLens.Workspace.Ignore
import VibeLens.Workspace.Index
import VibeLens.Workspace.Scan
