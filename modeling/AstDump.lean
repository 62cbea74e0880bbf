import AstDump.Arena
import AstDump.Arena.Builder
import AstDump.Binary
import AstDump.Category
import AstDump.ClassName
import AstDump.Config
import AstDump.Description
import AstDump.Dump
import AstDump.DumpError
import AstDump.DumpId
import AstDump.Dumper
import AstDump.Edge
import AstDump.IdScheme
import AstDump.Json.Form
import AstDump.Json.Token
import AstDump.Json.Value
import AstDump.Nesting
import AstDump.Node
import AstDump.NodeId
import AstDump.Qualifiers
import AstDump.Record
import AstDump.Reference
import AstDump.Registry
import AstDump.Sink
import AstDump.Sink.Destination
import AstDump.Sink.Memory
import AstDump.Sink.Quota
import AstDump.Sink.Text
import AstDump.Text.Blank
import AstDump.Text.Numeral
import AstDump.Trace
import AstDump.TypeKind
import AstDump.Writer
import AstDump.Proofs.Admission
import AstDump.Proofs.BinaryForm
import AstDump.Proofs.Children
import AstDump.Proofs.ChildrenFirst
import AstDump.Proofs.Complete
import AstDump.Proofs.DeclaredFields
import AstDump.Proofs.DepthFirst
import AstDump.Proofs.ExactlyOnce
import AstDump.Proofs.FailingWriter
import AstDump.Proofs.Faithful
import AstDump.Proofs.FirstFault
import AstDump.Proofs.Interning
import AstDump.Proofs.JsonForm
import AstDump.Proofs.JsonLayout
import AstDump.Proofs.MemoryHistory
import AstDump.Proofs.Refusal
import AstDump.Proofs.Registry
import AstDump.Proofs.RegistryHistory
import AstDump.Proofs.Relabelling
import AstDump.Proofs.Relocation
import AstDump.Proofs.Replay
import AstDump.Proofs.Safety
import AstDump.Proofs.Settings
import AstDump.Proofs.SharedMemory
import AstDump.Proofs.SharedStream
import AstDump.Proofs.Sink
import AstDump.Proofs.Sound
import AstDump.Proofs.StackMachine
import AstDump.Proofs.TextForm
import AstDump.Proofs.TextStream
import AstDump.Proofs.TraceLog
import AstDump.Proofs.Traversal
import AstDump.Proofs.Unfinished
import AstDump.Proofs.WriteOnce
