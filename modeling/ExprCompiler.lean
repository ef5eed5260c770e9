import ExprCompiler.Archive
import ExprCompiler.Assembly.Buffer
import ExprCompiler.Assembly.Listing
import ExprCompiler.Assembly.Operand
import ExprCompiler.Assembly.OperandText
import ExprCompiler.Assembly.Program
import ExprCompiler.Charset.Basic
import ExprCompiler.Charset.Common
import ExprCompiler.Charset.Tables
import ExprCompiler.Codegen
import ExprCompiler.CommandLine.Arguments
import ExprCompiler.CommandLine.Command
import ExprCompiler.CommandLine.Run
import ExprCompiler.Compile
import ExprCompiler.Config.Basic
import ExprCompiler.Config.Document
import ExprCompiler.Config.EnvFile
import ExprCompiler.Config.Load
import ExprCompiler.Diagnostics
import ExprCompiler.Double.Basic
import ExprCompiler.Double.Read
import ExprCompiler.Double.Shortest
import ExprCompiler.Expr.Basic
import ExprCompiler.Expr.Evaluate
import ExprCompiler.Expr.Fold
import ExprCompiler.Expr.Parse
import ExprCompiler.Files.Basic
import ExprCompiler.Files.Path
import ExprCompiler.Files.Tree
import ExprCompiler.Host
import ExprCompiler.Issue
import ExprCompiler.Json.Basic
import ExprCompiler.Json.Input
import ExprCompiler.Json.Key
import ExprCompiler.Json.Object
import ExprCompiler.Json.Text
import ExprCompiler.Log.Record
import ExprCompiler.Log.Stamp
import ExprCompiler.Log.Write
import ExprCompiler.Machine.Load
import ExprCompiler.Machine.Memory
import ExprCompiler.Machine.Registers
import ExprCompiler.Machine.Routine
import ExprCompiler.Machine.Scan
import ExprCompiler.Machine.Snapshot
import ExprCompiler.Machine.State
import ExprCompiler.Machine.Step
import ExprCompiler.Main
import ExprCompiler.Position
import ExprCompiler.Service.Basic
import ExprCompiler.Service.Cors
import ExprCompiler.Service.Endpoints
import ExprCompiler.Service.Http
import ExprCompiler.Service.Metrics
import ExprCompiler.Service.RateLimit
import ExprCompiler.Service.Wire
import ExprCompiler.Session
import ExprCompiler.Table
import ExprCompiler.Text.Base64
import ExprCompiler.Text.Blank
import ExprCompiler.Text.Bytes
import ExprCompiler.Text.EditDistance
import ExprCompiler.Text.Integer
import ExprCompiler.Text.Letter
import ExprCompiler.Text.LowerCase
import ExprCompiler.Text.Printable
import ExprCompiler.Text.Quoted
import ExprCompiler.Text.Range
import ExprCompiler.Text.Utf8
import ExprCompiler.Token.Basic
import ExprCompiler.Token.Scan
import ExprCompiler.Value
import ExprCompiler.Word
import ExprCompiler.Yaml.Node
import ExprCompiler.Yaml.Phrase
import ExprCompiler.Yaml.Read
import ExprCompiler.Yaml.Scalar
import ExprCompiler.Yaml.Token.Basic
import ExprCompiler.Yaml.Token.Block
import ExprCompiler.Yaml.Token.Cursor
import ExprCompiler.Yaml.Token.Quoted
import ExprCompiler.Yaml.Token.Scan
import ExprCompiler.Yaml.Value
import ExprCompiler.Proofs.Assembly.Accepted
import ExprCompiler.Proofs.Assembly.Data
import ExprCompiler.Proofs.Assembly.Instruction
import ExprCompiler.Proofs.Assembly.Line
import ExprCompiler.Proofs.Assembly.Linked
import ExprCompiler.Proofs.Assembly.Operand
import ExprCompiler.Proofs.Assembly.Peephole
import ExprCompiler.Proofs.Assembly.Printed
import ExprCompiler.Proofs.Assembly.Reread
import ExprCompiler.Proofs.Charset.Common
import ExprCompiler.Proofs.Charset.Lawful
import ExprCompiler.Proofs.Codegen.Acceptance
import ExprCompiler.Proofs.Codegen.Arithmetic
import ExprCompiler.Proofs.Codegen.Compiled
import ExprCompiler.Proofs.Codegen.Correctness
import ExprCompiler.Proofs.Codegen.Dialogue
import ExprCompiler.Proofs.Codegen.Encoding
import ExprCompiler.Proofs.Codegen.Execute
import ExprCompiler.Proofs.Codegen.FoldedRun
import ExprCompiler.Proofs.Codegen.Formatting
import ExprCompiler.Proofs.Codegen.Intact
import ExprCompiler.Proofs.Codegen.Lines
import ExprCompiler.Proofs.Codegen.Listing
import ExprCompiler.Proofs.Codegen.Merged
import ExprCompiler.Proofs.Codegen.Names
import ExprCompiler.Proofs.Codegen.NestedSum
import ExprCompiler.Proofs.Codegen.Peephole
import ExprCompiler.Proofs.Codegen.ReadBack
import ExprCompiler.Proofs.Codegen.Reload
import ExprCompiler.Proofs.Codegen.Run
import ExprCompiler.Proofs.Codegen.RuntimeFaults
import ExprCompiler.Proofs.Codegen.StackDiscipline
import ExprCompiler.Proofs.Codegen.StackUse
import ExprCompiler.Proofs.Codegen.Start
import ExprCompiler.Proofs.Codegen.Steps
import ExprCompiler.Proofs.Codegen.Unplaced
import ExprCompiler.Proofs.Codegen.UnsignedDividend
import ExprCompiler.Proofs.Codegen.Value
import ExprCompiler.Proofs.Diagnostics
import ExprCompiler.Proofs.Expr.Form
import ExprCompiler.Proofs.Expr.Frame
import ExprCompiler.Proofs.Expr.Identity
import ExprCompiler.Proofs.Expr.NormalForm
import ExprCompiler.Proofs.Folding
import ExprCompiler.Proofs.Grammar.Basic
import ExprCompiler.Proofs.Grammar.Blame
import ExprCompiler.Proofs.Grammar.Boundary
import ExprCompiler.Proofs.Grammar.Completeness
import ExprCompiler.Proofs.Grammar.Exchange
import ExprCompiler.Proofs.Grammar.FirstError
import ExprCompiler.Proofs.Grammar.Follow
import ExprCompiler.Proofs.Grammar.Indexed
import ExprCompiler.Proofs.Grammar.Outcome
import ExprCompiler.Proofs.Grammar.Program
import ExprCompiler.Proofs.Grammar.Progress
import ExprCompiler.Proofs.Grammar.Recovery
import ExprCompiler.Proofs.Grammar.SecondStatement
import ExprCompiler.Proofs.Grammar.Soundness
import ExprCompiler.Proofs.Grammar.Unique
import ExprCompiler.Proofs.Grammar.Viable
import ExprCompiler.Proofs.Json.Name
import ExprCompiler.Proofs.Json.Read
import ExprCompiler.Proofs.Machine.Blind
import ExprCompiler.Proofs.Machine.Block
import ExprCompiler.Proofs.Machine.Division
import ExprCompiler.Proofs.Machine.Faults
import ExprCompiler.Proofs.Machine.ForeignSnapshot
import ExprCompiler.Proofs.Machine.Invariant
import ExprCompiler.Proofs.Machine.Layout
import ExprCompiler.Proofs.Machine.Loaded
import ExprCompiler.Proofs.Machine.Memory
import ExprCompiler.Proofs.Machine.Placement
import ExprCompiler.Proofs.Machine.Reachable
import ExprCompiler.Proofs.Machine.Resume
import ExprCompiler.Proofs.Machine.Resumption
import ExprCompiler.Proofs.Machine.Snapshot
import ExprCompiler.Proofs.Machine.Stack
import ExprCompiler.Proofs.Machine.StepLimit
import ExprCompiler.Proofs.Machine.Straight
import ExprCompiler.Proofs.Machine.Unresolved
import ExprCompiler.Proofs.Machine.UntrustedSnapshot
import ExprCompiler.Proofs.Machine.Watched
import ExprCompiler.Proofs.Session.Agreement
import ExprCompiler.Proofs.Text.Ascii
import ExprCompiler.Proofs.Text.Framed
import ExprCompiler.Proofs.Text.Glyphs
import ExprCompiler.Proofs.Text.LowerCase
import ExprCompiler.Proofs.Text.Numeral
import ExprCompiler.Proofs.Text.Quoted
import ExprCompiler.Proofs.Text.SortedSet
import ExprCompiler.Proofs.Text.Utf8
import ExprCompiler.Proofs.Token.Lexicon
import ExprCompiler.Proofs.Token.Lines
import ExprCompiler.Proofs.Token.LongestMatch
import ExprCompiler.Proofs.Token.Partition
import ExprCompiler.Proofs.Token.Places
import ExprCompiler.Proofs.Token.Spacing
import ExprCompiler.Proofs.Token.Unique
