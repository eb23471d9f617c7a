import ClassTrace.Cbor
import ClassTrace.Cbor.Parser
import ClassTrace.ClassFile
import ClassTrace.ClassFile.Error
import ClassTrace.ClassFile.Parser
import ClassTrace.ClassFile.Pool
import ClassTrace.ClassFile.Reader
import ClassTrace.ClassPath
import ClassTrace.Clock
import ClassTrace.Command
import ClassTrace.Command.Config
import ClassTrace.Command.Flag
import ClassTrace.Command.Scalar
import ClassTrace.Command.Settings
import ClassTrace.Console
import ClassTrace.ConstantPool
import ClassTrace.ConstantPool.Resolve
import ClassTrace.Datum
import ClassTrace.Descriptor
import ClassTrace.Descriptor.Parser
import ClassTrace.Fault
import ClassTrace.Files
import ClassTrace.Files.Path
import ClassTrace.Files.Tree
import ClassTrace.Frame
import ClassTrace.Frame.Operation
import ClassTrace.Frame.Shuffle
import ClassTrace.Heap
import ClassTrace.Heap.KeyedMap
import ClassTrace.Instruction
import ClassTrace.Instruction.Arithmetic
import ClassTrace.Instruction.Decode
import ClassTrace.Json
import ClassTrace.Json.Parser
import ClassTrace.Json.Problem
import ClassTrace.Library
import ClassTrace.Log
import ClassTrace.Machine
import ClassTrace.Machine.Call
import ClassTrace.Machine.Host
import ClassTrace.Machine.Memory
import ClassTrace.Machine.Routine
import ClassTrace.Machine.Step
import ClassTrace.Main
import ClassTrace.Node
import ClassTrace.Node.Cbor
import ClassTrace.Node.Json
import ClassTrace.Number.Binary
import ClassTrace.Number.Decimal
import ClassTrace.Number.DecimalLiteral
import ClassTrace.Number.Extremum
import ClassTrace.Number.FloatText
import ClassTrace.Number.Literal
import ClassTrace.Number.Power
import ClassTrace.Number.Remainder
import ClassTrace.Number.Shortest
import ClassTrace.Opcode
import ClassTrace.OperandStack
import ClassTrace.Program
import ClassTrace.Program.Load
import ClassTrace.Proofs.AccessRange
import ClassTrace.Proofs.Action
import ClassTrace.Proofs.Arguments
import ClassTrace.Proofs.Call
import ClassTrace.Proofs.CallerFrames
import ClassTrace.Proofs.DebugTables
import ClassTrace.Proofs.Decode
import ClassTrace.Proofs.DescriptorGrammar
import ClassTrace.Proofs.Ending
import ClassTrace.Proofs.ErrorKinds
import ClassTrace.Proofs.EventLine
import ClassTrace.Proofs.FaultLocation
import ClassTrace.Proofs.Follows
import ClassTrace.Proofs.Frame
import ClassTrace.Proofs.FrameBounds
import ClassTrace.Proofs.Heap
import ClassTrace.Proofs.HeapShape
import ClassTrace.Proofs.HostLockstep
import ClassTrace.Proofs.Layout
import ClassTrace.Proofs.Lockstep
import ClassTrace.Proofs.Loosened
import ClassTrace.Proofs.Memory
import ClassTrace.Proofs.ModifiedUtf8
import ClassTrace.Proofs.Nesting
import ClassTrace.Proofs.OutsideErrors
import ClassTrace.Proofs.ParseInverse
import ClassTrace.Proofs.Parses
import ClassTrace.Proofs.PoolItems
import ClassTrace.Proofs.PoolResolution
import ClassTrace.Proofs.PoolShape
import ClassTrace.Proofs.Quiet
import ClassTrace.Proofs.ReadItems
import ClassTrace.Proofs.References
import ClassTrace.Proofs.Replay
import ClassTrace.Proofs.Run
import ClassTrace.Proofs.StackBound
import ClassTrace.Proofs.Step
import ClassTrace.Proofs.StepEvents
import ClassTrace.Proofs.StringLiteral
import ClassTrace.Proofs.Truncation
import ClassTrace.Proofs.Variation
import ClassTrace.Text.Base64
import ClassTrace.Text.Bytes
import ClassTrace.Text.Fold
import ClassTrace.Text.Printable
import ClassTrace.Text.Quoted
import ClassTrace.Text.Utf16
import ClassTrace.Text.Utf8
import ClassTrace.Timestamp
import ClassTrace.Trace.Archive
import ClassTrace.Trace.Document
import ClassTrace.Trace.Event
import ClassTrace.Trace.Format
import ClassTrace.Value
import ClassTrace.Yaml
import ClassTrace.Yaml.Cursor
import ClassTrace.Yaml.Lexer
import ClassTrace.Yaml.Parser
import ClassTrace.Yaml.Resolve
import ClassTrace.Yaml.Source
import ClassTrace.Yaml.Tag
import ClassTrace.Yaml.Text
import ClassTrace.Yaml.Value
import ClassTrace.Proofs.BranchModes
import ClassTrace.Proofs.Limits
import ClassTrace.Proofs.FieldTypes
import ClassTrace.Proofs.JsonRoundTrip
import ClassTrace.Proofs.CborRoundTrip
import ClassTrace.Proofs.ExactDoubles
import ClassTrace.Proofs.ValueViews
import ClassTrace.Proofs.DocumentRoundTrip
import ClassTrace.Proofs.Steady
import ClassTrace.Proofs.Changes
import ClassTrace.Proofs.ArrayKinds
import ClassTrace.Proofs.MapKeys
import ClassTrace.Proofs.MapRefinement
import ClassTrace.Proofs.LibraryStatics
import ClassTrace.Proofs.Printing
import ClassTrace.Proofs.FileRequests
import ClassTrace.Proofs.CommandOutput
import ClassTrace.Proofs.Shuffles
import ClassTrace.Proofs.NarrowArrays
import ClassTrace.Proofs.Switches
import ClassTrace.Proofs.FieldReferences
import ClassTrace.Proofs.ArgumentPassing
import ClassTrace.Proofs.Loading
import ClassTrace.Proofs.IntegerArithmetic
import ClassTrace.Proofs.NameLookup
import ClassTrace.Proofs.LineTable
import ClassTrace.Proofs.VariableScopes
import ClassTrace.Proofs.StoreNames
import ClassTrace.Proofs.PoolPasses
