import NaturalDeduction.Attempt.Basic
import NaturalDeduction.Attempt.Report
import NaturalDeduction.Attempt.Request
import NaturalDeduction.Check.Step
import NaturalDeduction.Check.Verdict
import NaturalDeduction.CommandLine.Options
import NaturalDeduction.CommandLine.Program
import NaturalDeduction.Document.Basic
import NaturalDeduction.Document.Flow
import NaturalDeduction.Document.Scalar
import NaturalDeduction.Fault
import NaturalDeduction.Formula.Basic
import NaturalDeduction.Formula.Fingerprint
import NaturalDeduction.Formula.Printer
import NaturalDeduction.Formula.Reader
import NaturalDeduction.Formula.Semantics
import NaturalDeduction.Increasing
import NaturalDeduction.Line.Basic
import NaturalDeduction.Line.Blocks
import NaturalDeduction.Line.IndexSet
import NaturalDeduction.Line.Sequence
import NaturalDeduction.Main
import NaturalDeduction.Proofs.Check.Justified
import NaturalDeduction.Proofs.Check.Splice
import NaturalDeduction.Proofs.Faults
import NaturalDeduction.Proofs.Formula.Entailment
import NaturalDeduction.Proofs.Line.Lookup
import NaturalDeduction.Proofs.Search.Ample
import NaturalDeduction.Proofs.Search.Blocks
import NaturalDeduction.Proofs.Search.Budgets
import NaturalDeduction.Proofs.Search.Candidates
import NaturalDeduction.Proofs.Search.Checked
import NaturalDeduction.Proofs.Search.Dedupe
import NaturalDeduction.Proofs.Search.Endings
import NaturalDeduction.Proofs.Search.Equation
import NaturalDeduction.Proofs.Search.Finish
import NaturalDeduction.Proofs.Search.Levels
import NaturalDeduction.Proofs.Search.Nodes
import NaturalDeduction.Proofs.Search.Numbering
import NaturalDeduction.Proofs.Search.Pass
import NaturalDeduction.Proofs.Search.Provable
import NaturalDeduction.Proofs.Search.Soundness
import NaturalDeduction.Proofs.Search.Steps
import NaturalDeduction.Rule
import NaturalDeduction.Search.Basic
import NaturalDeduction.Search.Candidates
import NaturalDeduction.Search.Distinct
import NaturalDeduction.Search.Event
import NaturalDeduction.Search.Node
import NaturalDeduction.Search.Queue
import NaturalDeduction.Search.Result
import NaturalDeduction.Search.Seen
import NaturalDeduction.Search.Stats
import NaturalDeduction.Search.Steps
import NaturalDeduction.Settings.Basic
import NaturalDeduction.Settings.Layers
import NaturalDeduction.Settings.Path
import NaturalDeduction.Text.Blank
import NaturalDeduction.Text.Decimal
import NaturalDeduction.Text.Integer
import NaturalDeduction.Text.LastLine
import NaturalDeduction.Text.Printable
import NaturalDeduction.Text.Quoted
import NaturalDeduction.Text.Split
import NaturalDeduction.Value.Basic
import NaturalDeduction.Value.Json
import NaturalDeduction.Proofs.Formula.Grammar
import NaturalDeduction.Proofs.Formula.RoundTrip
import NaturalDeduction.Proofs.Search.Reachable
import NaturalDeduction.Proofs.Line.Layout
import NaturalDeduction.Proofs.Line.Move
import NaturalDeduction.Proofs.Search.Scope
import NaturalDeduction.Proofs.Check.Entailment
import NaturalDeduction.Proofs.Check.Discharge
import NaturalDeduction.Proofs.Search.Derived
import NaturalDeduction.Proofs.Attempt.History
import NaturalDeduction.Proofs.Search.Nested
import NaturalDeduction.Proofs.Search.Termination
import NaturalDeduction.Proofs.Search.Halts
import NaturalDeduction.Proofs.Search.Depth
import NaturalDeduction.Proofs.Line.Renaming
import NaturalDeduction.Proofs.Search.Renaming
import NaturalDeduction.Proofs.Check.Spliced
import NaturalDeduction.Proofs.Search.Agreement
import NaturalDeduction.Proofs.Search.Safety
import NaturalDeduction.Proofs.Check.Roots
import NaturalDeduction.Proofs.Search.Balance
import NaturalDeduction.Proofs.Search.Length
import NaturalDeduction.Proofs.Search.Indentation
import NaturalDeduction.Proofs.Search.Vocabulary
import NaturalDeduction.Proofs.Formula.ReadErrors
import NaturalDeduction.Proofs.Attempt.Request
import NaturalDeduction.Proofs.Search.Moments
import NaturalDeduction.Proofs.Settings.Layers
