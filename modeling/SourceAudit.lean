import SourceAudit.Command
import SourceAudit.Command.Arguments
import SourceAudit.Config
import SourceAudit.Construct
import SourceAudit.Detector
import SourceAudit.Digest.Sha256
import SourceAudit.Fault
import SourceAudit.FileSystem
import SourceAudit.Finding
import SourceAudit.Grammar
import SourceAudit.Grammar.Basic
import SourceAudit.Grammar.EcmaExpression
import SourceAudit.Grammar.EcmaMarkup
import SourceAudit.Grammar.EcmaPattern
import SourceAudit.Grammar.EcmaStatement
import SourceAudit.Grammar.EcmaToken
import SourceAudit.Grammar.EcmaType
import SourceAudit.Grammar.GolangExpression
import SourceAudit.Grammar.GolangStatement
import SourceAudit.Grammar.GolangToken
import SourceAudit.Grammar.GolangType
import SourceAudit.Grammar.PythonExpression
import SourceAudit.Grammar.PythonStatement
import SourceAudit.Grammar.PythonToken
import SourceAudit.Json.Basic
import SourceAudit.Json.Printer
import SourceAudit.Json.Reader
import SourceAudit.Json.Record
import SourceAudit.Language
import SourceAudit.Lowering
import SourceAudit.Lowering.Basic
import SourceAudit.Lowering.Ecmascript
import SourceAudit.Lowering.Golang
import SourceAudit.Lowering.Python
import SourceAudit.Main
import SourceAudit.Path
import SourceAudit.Pattern
import SourceAudit.Policy
import SourceAudit.Record
import SourceAudit.Report
import SourceAudit.Report.Console
import SourceAudit.Report.Document
import SourceAudit.Report.Format
import SourceAudit.Report.Sarif
import SourceAudit.Report.Stamp
import SourceAudit.Rule.CallTable
import SourceAudit.Rule.Line
import SourceAudit.Rule.Structural
import SourceAudit.Scan
import SourceAudit.Scan.Discovery
import SourceAudit.Scan.Pipeline
import SourceAudit.Settings
import SourceAudit.Severity
import SourceAudit.Site
import SourceAudit.Syntax.Source
import SourceAudit.Syntax.Tree
import SourceAudit.Tally
import SourceAudit.Text.Blank
import SourceAudit.Text.Casing
import SourceAudit.Text.Lines
import SourceAudit.Text.Lowercase
import SourceAudit.Text.Search
import SourceAudit.Text.Snippet
import SourceAudit.Text.Utf8
import SourceAudit.Toml.Basic
import SourceAudit.Toml.Literal
import SourceAudit.Toml.Moment
import SourceAudit.Toml.Reader
import SourceAudit.Word
import SourceAudit.Proofs.Pipeline.Accounting
import SourceAudit.Proofs.Pipeline.Progress
import SourceAudit.Proofs.Pipeline.Completion
import SourceAudit.Proofs.Walk
import SourceAudit.Proofs.ReportOrder
import SourceAudit.Proofs.Lowering.Faithful
import SourceAudit.Proofs.Lowering.Trivia
import SourceAudit.Proofs.Lowering.Sites
import SourceAudit.Proofs.Lowering.Vocabulary
import SourceAudit.Proofs.Lowering.Wrappers
import SourceAudit.Proofs.Lowering.Assignments
import SourceAudit.Proofs.Lowering.Displacement
import SourceAudit.Proofs.Excerpt
import SourceAudit.Proofs.Line.Texts
import SourceAudit.Proofs.Line.Reports
import SourceAudit.Proofs.Decoding
import SourceAudit.Proofs.Line.Locality
import SourceAudit.Proofs.Line.Endings
import SourceAudit.Proofs.Discovery
import SourceAudit.Proofs.Json.RoundTrip
import SourceAudit.Proofs.Report.ReadBack
import SourceAudit.Proofs.Verdict
import SourceAudit.Proofs.Engine
import SourceAudit.Proofs.Position
import SourceAudit.Proofs.Report.Sarif
import SourceAudit.Proofs.Sinks
import SourceAudit.Proofs.ScanCommand
import SourceAudit.Proofs.Secrets
import SourceAudit.Proofs.Prototypes
import SourceAudit.Proofs.ReadingOrder
import SourceAudit.Proofs.Identity
import SourceAudit.Proofs.Lowercase
import SourceAudit.Proofs.Spelling
import SourceAudit.Proofs.ArgumentOrder
