import Qll.Assembly.Directive
import Qll.Assembly.Stream
import Qll.Bytes.BigEndian
import Qll.Check.Context
import Qll.Check.Expr
import Qll.Check.Kind
import Qll.Check.Name
import Qll.Check.State
import Qll.Check.Stmt
import Qll.Check.Storage
import Qll.Check.Table
import Qll.Check.Value
import Qll.Check.Written
import Qll.Checked.Tree
import Qll.Codegen.Address
import Qll.Codegen.Call
import Qll.Codegen.Copy
import Qll.Codegen.Finish
import Qll.Codegen.Frame
import Qll.Codegen.Linker
import Qll.Codegen.Lowering
import Qll.Codegen.Pool
import Qll.Codegen.Routine
import Qll.Command.Desk
import Qll.Command.Flag
import Qll.Command.Host
import Qll.Command.Line
import Qll.Command.Program
import Qll.Command.Session
import Qll.Command.Settings
import Qll.Compilation.Run
import Qll.Compilation.Stage
import Qll.Diagnostic.Bag
import Qll.Diagnostic.Basic
import Qll.Diagnostic.Render
import Qll.Digest.Sha256
import Qll.Fault
import Qll.Files.Disk
import Qll.Files.Path
import Qll.Files.Pattern
import Qll.Interchange.Build
import Qll.Interchange.Node
import Qll.Interchange.Reading
import Qll.Interchange.Unit
import Qll.Json.Access
import Qll.Json.Parser
import Qll.Json.Printer
import Qll.Json.Value
import Qll.Machine.Execution
import Qll.Machine.Image
import Qll.Machine.Opcode
import Qll.Machine.Register
import Qll.Machine.Word
import Qll.Main
import Qll.Manifest.Project
import Qll.MessagePack.Reader
import Qll.MessagePack.Value
import Qll.Number.Binary
import Qll.Number.Literal
import Qll.Number.Total
import Qll.Program.Check
import Qll.Program.Compile
import Qll.Program.Declare
import Qll.Program.Liveness
import Qll.Program.Names
import Qll.Progress.View
import Qll.Proofs.Assembly.Streams
import Qll.Proofs.Check.Bodies
import Qll.Proofs.Check.Lengths
import Qll.Proofs.Check.Requests
import Qll.Proofs.Codegen.Activation
import Qll.Proofs.Codegen.Addressing
import Qll.Proofs.Codegen.Allocating
import Qll.Proofs.Codegen.Building
import Qll.Proofs.Codegen.Calling
import Qll.Proofs.Codegen.Passing
import Qll.Proofs.Codegen.CopyLowering
import Qll.Proofs.Codegen.Indexing
import Qll.Proofs.Codegen.Interrupts
import Qll.Proofs.Codegen.Layout
import Qll.Proofs.Compilation.Capped
import Qll.Proofs.Compilation.Labels
import Qll.Proofs.Compilation.Protocol
import Qll.Proofs.Compilation.Returns
import Qll.Proofs.Diagnostic.Bags
import Qll.Proofs.Diagnostic.Order
import Qll.Proofs.Interchange.Building
import Qll.Proofs.Interchange.Units
import Qll.Proofs.Machine.Placement
import Qll.Proofs.Program.Absolute
import Qll.Proofs.Program.Checking
import Qll.Proofs.Program.Compared
import Qll.Proofs.Program.Converted
import Qll.Proofs.Program.Declaring
import Qll.Proofs.Program.Finite
import Qll.Proofs.Program.Headers
import Qll.Proofs.Program.InstanceTable
import Qll.Proofs.Program.Instances
import Qll.Proofs.Program.Projections
import Qll.Proofs.Digest.Transcripts
import Qll.Proofs.Program.Reachability
import Qll.Proofs.Trace.Rings
import Qll.Proofs.Types.Alike
import Qll.Proofs.Types.Representation
import Qll.Proofs.Types.Spacing
import Qll.Release.Constraint
import Qll.Release.Version
import Qll.Report.Assembly
import Qll.Report.Compilation
import Qll.Report.Diagnostics
import Qll.Report.Machine
import Qll.Report.Operator
import Qll.Report.Outline
import Qll.Report.Project
import Qll.Report.Query
import Qll.Report.Routine
import Qll.Source.Location
import Qll.Source.Tree
import Qll.Text.Basic
import Qll.Text.Canonical
import Qll.Text.Composed
import Qll.Text.Hex
import Qll.Text.Quoted
import Qll.Text.Ranges
import Qll.Text.Record
import Qll.Text.Utf8
import Qll.Text.Width
import Qll.Toml.Document
import Qll.Toml.Parser
import Qll.Trace.Event
import Qll.Trace.Level
import Qll.Trace.Recorder
import Qll.Types.Basic
import Qll.Types.Layout
import Qll.Types.Path
import Qll.Types.Store
import Qll.Types.Template
import Qll.Types.Text
import Qll.Types.Unify
