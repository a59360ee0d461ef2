import Quasiquote.Commands.CommandLine
import Quasiquote.Commands.Error
import Quasiquote.Commands.Listing
import Quasiquote.Commands.Rewrite
import Quasiquote.Decimal.Reading
import Quasiquote.Decimal.Shortest
import Quasiquote.Digest.Sha256
import Quasiquote.Files.Error
import Quasiquote.Files.Path
import Quasiquote.Files.Tree
import Quasiquote.Host.Arithmetic
import Quasiquote.Host.Error
import Quasiquote.Host.Eval
import Quasiquote.Host.Exec
import Quasiquote.Host.Expr
import Quasiquote.Host.Parser
import Quasiquote.Main
import Quasiquote.Native.ArtifactName
import Quasiquote.Native.BuildCache
import Quasiquote.Native.CString
import Quasiquote.Native.Calls
import Quasiquote.Native.Error
import Quasiquote.Native.Fingerprint
import Quasiquote.Native.HandleTable
import Quasiquote.Native.Identifiers
import Quasiquote.Native.Loaded
import Quasiquote.Native.Program
import Quasiquote.Native.Sweep
import Quasiquote.Native.Toolchain
import Quasiquote.Native.Unit
import Quasiquote.Native.Workshop
import Quasiquote.Native.Wrapper
import Quasiquote.Proofs.Site.Call
import Quasiquote.Proofs.Site.Fixpoint
import Quasiquote.Proofs.Site.Gluing
import Quasiquote.Proofs.Site.Layout
import Quasiquote.Proofs.Site.Recognition
import Quasiquote.Proofs.Site.Tokens
import Quasiquote.Proofs.Source.Boundary
import Quasiquote.Proofs.Source.Cut
import Quasiquote.Proofs.Source.Nesting
import Quasiquote.Proofs.Source.Operator
import Quasiquote.Proofs.Source.Parallel
import Quasiquote.Proofs.Source.Quoted
import Quasiquote.Proofs.Source.Step
import Quasiquote.Proofs.Source.Words
import Quasiquote.Proofs.Source.Spacing
import Quasiquote.Proofs.Source.Rows
import Quasiquote.Proofs.Source.Wrapped
import Quasiquote.Proofs.Text.LineEnds
import Quasiquote.Proofs.Source.LineEnds
import Quasiquote.Proofs.Site.LineEnds
import Quasiquote.Quoter.Basic
import Quasiquote.Quoter.Dispatch
import Quasiquote.Quoter.Error
import Quasiquote.Quoter.FromFile
import Quasiquote.Quoter.Probe
import Quasiquote.Scope.Bindings
import Quasiquote.Scope.Context
import Quasiquote.Scope.Frame
import Quasiquote.Site.Basic
import Quasiquote.Site.Pragma
import Quasiquote.Site.Recognition
import Quasiquote.Site.Rewriting
import Quasiquote.Source.ByteReader
import Quasiquote.Source.ByteView
import Quasiquote.Source.Error
import Quasiquote.Source.Lexer
import Quasiquote.Source.Literal
import Quasiquote.Source.Position
import Quasiquote.Source.Scan
import Quasiquote.Source.Token
import Quasiquote.Table
import Quasiquote.Text.Alphanumeric
import Quasiquote.Text.Blank
import Quasiquote.Text.Hex
import Quasiquote.Text.Lines
import Quasiquote.Text.Printable
import Quasiquote.Text.Ranges
import Quasiquote.Text.Shown
import Quasiquote.Text.Utf8
import Quasiquote.Value.Equality
import Quasiquote.Value.Heap
import Quasiquote.Value.Text
import Quasiquote.Proofs.Scope.Frame
import Quasiquote.Proofs.Scope.Context
import Quasiquote.Proofs.Quoter.Dispatch
import Quasiquote.Proofs.Host.Body
import Quasiquote.Proofs.Host.Brackets
import Quasiquote.Proofs.Host.Effects
import Quasiquote.Proofs.Host.Integers
import Quasiquote.Proofs.Host.Exec
import Quasiquote.Proofs.Host.Follow
import Quasiquote.Proofs.Host.Complete
import Quasiquote.Proofs.Host.Printing
import Quasiquote.Proofs.Host.Statements
import Quasiquote.Proofs.Host.Layout
import Quasiquote.Proofs.Host.RoundTrip
import Quasiquote.Proofs.Host.Grammar
import Quasiquote.Proofs.Host.Rule
import Quasiquote.Proofs.Host.Sound
import Quasiquote.Proofs.Site.Front
import Quasiquote.Proofs.Native.Attribution
import Quasiquote.Proofs.Source.Tiling
import Quasiquote.Proofs.Source.Canonical
import Quasiquote.Proofs.Files.Path
import Quasiquote.Proofs.Files.Tree
import Quasiquote.Proofs.Native.ArtifactName
import Quasiquote.Proofs.Native.Liveness
import Quasiquote.Proofs.Native.Sweep
import Quasiquote.Proofs.Native.Cleanup
import Quasiquote.Proofs.Files.Sound
import Quasiquote.Proofs.Value.Datum
import Quasiquote.Proofs.Host.Repr
import Quasiquote.Proofs.Native.Releasing
import Quasiquote.Proofs.Native.References
import Quasiquote.Proofs.Files.Changes
import Quasiquote.Proofs.Native.BuildCache
import Quasiquote.Proofs.Source.LongestOperator
import Quasiquote.Proofs.Commands.Rewrite
import Quasiquote.Proofs.Source.LogicalLines
import Quasiquote.Proofs.Source.IndentedBlock
import Quasiquote.Proofs.Source.Denotation
import Quasiquote.Proofs.Host.Assigned
import Quasiquote.Proofs.Native.LoadedRun
import Quasiquote.Proofs.Native.Fingerprint
import Quasiquote.Proofs.Native.HostNames
import Quasiquote.Proofs.Text.Lines
import Quasiquote.Proofs.Site.Pragma
import Quasiquote.Proofs.Host.Repetition
import Quasiquote.Proofs.Text.Utf8
import Quasiquote.Proofs.Native.CString
import Quasiquote.Proofs.Native.CarriedTexts
import Quasiquote.Proofs.Source.ByteView
import Quasiquote.Proofs.Source.ByteScan
import Quasiquote.Proofs.Source.BytePlaces
import Quasiquote.Proofs.Source.ByteTokens
import Quasiquote.Proofs.Source.ByteReader
import Quasiquote.Proofs.Source.InBounds
