import Stencil.Escape.Hex
import Stencil.Main
import Stencil.Session
import Stencil.Proofs.Text.Occurrences
import Stencil.Proofs.Evaluate.Provenance
import Stencil.Proofs.Check.Coverage
import Stencil.Proofs.Levels
import Stencil.Proofs.Check.Cursor
import Stencil.Proofs.Compile.Literals
import Stencil.Proofs.Check.Greedy
import Stencil.Proofs.Check.Division
import Stencil.Proofs.Evaluate.Conditions
import Stencil.Proofs.Format.RoundTrip
import Stencil.Proofs.Source.Balance
import Stencil.Proofs.Source.Pieces
import Stencil.Proofs.Text.Blank
import Stencil.Proofs.Text.Decimal
import Stencil.Proofs.Compile.Head
import Stencil.Proofs.Draft.Basic
import Stencil.Proofs.Draft.Printed
import Stencil.Proofs.Draft.Arguments
import Stencil.Proofs.Draft.RoundTrip
import Stencil.Proofs.Compile.Nested
import Stencil.Proofs.Nesting
import Stencil.Proofs.Compile.Values
import Stencil.Proofs.Compile.Capture
import Stencil.Proofs.Embedding
import Stencil.Proofs.Format.Delimited
import Stencil.Proofs.Check.Phases
import Stencil.Proofs.Evaluate.Ranges
import Stencil.Proofs.Evaluate.Verdict
import Stencil.Proofs.Evaluate.Extraction
import Stencil.Proofs.Evaluate.Related
import Stencil.Proofs.Params.Names
import Stencil.Proofs.Params.Agreement
import Stencil.Proofs.Params.Frame
import Stencil.Proofs.Params.Refusal
import Stencil.Proofs.Compile.Reports
import Stencil.Proofs.Compile.Reads
import Stencil.Proofs.Reports
import Stencil.Proofs.Truncation
import Stencil.Proofs.Escape.Hex
import Stencil.Proofs.Compile.Tags
import Stencil.Proofs.Check.CaseVariants
import Stencil.Proofs.Compile.Append
import Stencil.Proofs.Scan.Clause
import Stencil.Proofs.Scan.Level
import Stencil.Proofs.Compile.Partition
import Stencil.Proofs.Function.Suffix
import Stencil.Proofs.Compile.Modifiers
import Stencil.Proofs.Evaluate.Delimiters
import Stencil.Proofs.Example.Conditions
import Stencil.Proofs.Example.Numbers
import Stencil.Proofs.Example.Captured
import Stencil.Proofs.Text.Replacing
import Stencil.Proofs.Text.Comparison
import Stencil.Proofs.Text.Bytes
import Stencil.Proofs.Text.Boundaries
import Stencil.Proofs.Text.Segments
import Stencil.Proofs.Evaluate.Pieces
import Stencil.Proofs.Evaluate.Resizing
import Stencil.Proofs.Scan.Closing
import Stencil.Proofs.Scan.Joining
import Stencil.Proofs.Scan.Advance
import Stencil.Proofs.Operators
import Stencil.Proofs.Compile.Words
import Stencil.Proofs.Compile.Shrinking
import Stencil.Proofs.Termination
