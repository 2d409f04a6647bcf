import ScrewLang.Command.Arguments
import ScrewLang.Command.Basic
import ScrewLang.Command.Invocation
import ScrewLang.Command.Repl
import ScrewLang.Command.Run
import ScrewLang.Command.Usage
import ScrewLang.Command.World
import ScrewLang.Command.Write
import ScrewLang.Device.Console
import ScrewLang.Device.Fault
import ScrewLang.File.Name
import ScrewLang.File.Source
import ScrewLang.File.Tree
import ScrewLang.Generator
import ScrewLang.Machine.Action
import ScrewLang.Machine.EofPolicy
import ScrewLang.Machine.Fault
import ScrewLang.Machine.Run
import ScrewLang.Machine.Tape
import ScrewLang.Machine.Trace
import ScrewLang.Main
import ScrewLang.Program.Basic
import ScrewLang.Program.Dump
import ScrewLang.Program.Jumps
import ScrewLang.Program.Symbol
import ScrewLang.Proofs.Command.Agreement
import ScrewLang.Proofs.File.Loading
import ScrewLang.Proofs.Generator.RoundTrip
import ScrewLang.Proofs.Generator.Sizes
import ScrewLang.Proofs.Generator.Snippets
import ScrewLang.Proofs.Machine.CellDumps
import ScrewLang.Proofs.Machine.Failures
import ScrewLang.Proofs.Machine.Limits
import ScrewLang.Proofs.Machine.LongerTape
import ScrewLang.Proofs.Machine.Plans
import ScrewLang.Proofs.Machine.Rehearsal
import ScrewLang.Proofs.Machine.Rounds
import ScrewLang.Proofs.Machine.Sequence
import ScrewLang.Proofs.Machine.Session
import ScrewLang.Proofs.Machine.Synchrony
import ScrewLang.Proofs.Machine.UnreadInput
import ScrewLang.Proofs.Program.Balance
import ScrewLang.Proofs.Program.Concatenation
import ScrewLang.Proofs.Program.DumpConditions
import ScrewLang.Proofs.Program.Nesting
import ScrewLang.Proofs.Program.Operands
import ScrewLang.Proofs.Program.Partners
import ScrewLang.Proofs.Program.Rescan
import ScrewLang.Proofs.Program.TextForm
import ScrewLang.Proofs.Program.Tokens
import ScrewLang.Proofs.Program.Unmatched
import ScrewLang.Proofs.Repl.AddedTerminator
import ScrewLang.Proofs.Repl.Grouping
import ScrewLang.Proofs.Repl.Highlighting
import ScrewLang.Proofs.Repl.WholeInput
import ScrewLang.Proofs.Report.Caret
import ScrewLang.Proofs.Report.Window
import ScrewLang.Proofs.Settings.Limits
import ScrewLang.Proofs.Settings.Lookup
import ScrewLang.Proofs.Settings.RoundTrip
import ScrewLang.Proofs.Settings.Statements
import ScrewLang.Proofs.Settings.TrailingComments
import ScrewLang.Proofs.Source.Braces
import ScrewLang.Proofs.Source.CodeBytes
import ScrewLang.Proofs.Source.CodeLines
import ScrewLang.Proofs.Source.Comments
import ScrewLang.Proofs.Source.Grammar
import ScrewLang.Proofs.Source.Items
import ScrewLang.Proofs.Source.Offsets
import ScrewLang.Proofs.Source.Positions
import ScrewLang.Proofs.Source.Regions
import ScrewLang.Proofs.Source.Similar
import ScrewLang.Proofs.Structured.Execution
import ScrewLang.Proofs.Structured.Leaves
import ScrewLang.Proofs.Structured.Placement
import ScrewLang.Proofs.Structured.Refinement
import ScrewLang.Proofs.Structured.Simulation
import ScrewLang.Proofs.Structured.Syntax
import ScrewLang.Proofs.Structured.Triples
import ScrewLang.Proofs.Text.Decoding
import ScrewLang.Proofs.Text.Encoding
import ScrewLang.Proofs.Text.Lines
import ScrewLang.Proofs.Text.Numerals
import ScrewLang.Proofs.Text.Trimming
import ScrewLang.Repl.Highlight
import ScrewLang.Repl.Mode
import ScrewLang.Repl.Session
import ScrewLang.Repl.Submission
import ScrewLang.Report.Message
import ScrewLang.Report.Window
import ScrewLang.Settings.Basic
import ScrewLang.Settings.Color
import ScrewLang.Settings.Entries
import ScrewLang.Settings.Limit
import ScrewLang.Source.Brace
import ScrewLang.Source.Location
import ScrewLang.Source.Scan
import ScrewLang.Source.Validation
import ScrewLang.Text.Blank
import ScrewLang.Text.Lines
import ScrewLang.Text.Numeral
import ScrewLang.Text.Slice
import ScrewLang.Text.Utf8
