import CommonTrace.Bit.ByteOrder
import CommonTrace.Bit.Cursor
import CommonTrace.Dictionary
import CommonTrace.Event.Basic
import CommonTrace.Event.Json
import CommonTrace.Field.Basic
import CommonTrace.Field.Decode
import CommonTrace.Field.Scope
import CommonTrace.FieldType.Basic
import CommonTrace.FieldType.Scalar
import CommonTrace.Name.FieldPath
import CommonTrace.Name.StaticScope
import CommonTrace.Numeric.Binary64
import CommonTrace.Numeric.Numeral
import CommonTrace.Numeric.Width
import CommonTrace.Packet.Basic
import CommonTrace.Packet.Cycles
import CommonTrace.Packet.Events
import CommonTrace.Packet.Head
import CommonTrace.Packet.Index
import CommonTrace.Proofs.Bit.Bare
import CommonTrace.Proofs.Bit.Calls
import CommonTrace.Proofs.Bit.Errors
import CommonTrace.Proofs.Bit.Packing
import CommonTrace.Proofs.Bit.Positional
import CommonTrace.Proofs.Bit.Reading
import CommonTrace.Proofs.Bit.Words
import CommonTrace.Proofs.Dictionary
import CommonTrace.Proofs.Field.Agreement
import CommonTrace.Proofs.Field.Characters
import CommonTrace.Proofs.Field.Climbing
import CommonTrace.Proofs.Field.Conformance
import CommonTrace.Proofs.Field.Contents
import CommonTrace.Proofs.Field.Errors
import CommonTrace.Proofs.Field.Failures
import CommonTrace.Proofs.Field.FloatPowers
import CommonTrace.Proofs.Field.Forest
import CommonTrace.Proofs.Field.Growth
import CommonTrace.Proofs.Field.IntegerRange
import CommonTrace.Proofs.Field.LastInteger
import CommonTrace.Proofs.Field.Layout
import CommonTrace.Proofs.Field.Locality
import CommonTrace.Proofs.Field.Lookups
import CommonTrace.Proofs.Field.Misreads
import CommonTrace.Proofs.Field.Navigation
import CommonTrace.Proofs.Field.Occupancy
import CommonTrace.Proofs.Field.Rendering
import CommonTrace.Proofs.Field.RoundTrip
import CommonTrace.Proofs.Field.Scoping
import CommonTrace.Proofs.Field.Searches
import CommonTrace.Proofs.Field.Stages
import CommonTrace.Proofs.Field.Stops
import CommonTrace.Proofs.Field.WithoutBits
import CommonTrace.Proofs.Name.FieldPath
import CommonTrace.Proofs.Name.StaticScope
import CommonTrace.Proofs.Packet.Agreement
import CommonTrace.Proofs.Packet.Blocks
import CommonTrace.Proofs.Packet.Calls
import CommonTrace.Proofs.Packet.Climbing
import CommonTrace.Proofs.Packet.Errors
import CommonTrace.Proofs.Packet.Failures
import CommonTrace.Proofs.Packet.Framing
import CommonTrace.Proofs.Packet.Locality
import CommonTrace.Proofs.Packet.Lookups
import CommonTrace.Proofs.Packet.Losses
import CommonTrace.Proofs.Packet.Origin
import CommonTrace.Proofs.Packet.Progress
import CommonTrace.Proofs.Packet.Repetitions
import CommonTrace.Proofs.Packet.Stops
import CommonTrace.Proofs.Packet.TimeStamps
import CommonTrace.Proofs.Schema.Accepted
import CommonTrace.Proofs.Schema.AlikeTables
import CommonTrace.Proofs.Schema.Binding
import CommonTrace.Proofs.Schema.BindingFault
import CommonTrace.Proofs.Schema.Block
import CommonTrace.Proofs.Schema.BlockComparison
import CommonTrace.Proofs.Schema.BlockValues
import CommonTrace.Proofs.Schema.BoundEvents
import CommonTrace.Proofs.Schema.CallStack
import CommonTrace.Proofs.Schema.CheckFaults
import CommonTrace.Proofs.Schema.Checked
import CommonTrace.Proofs.Schema.Clock
import CommonTrace.Proofs.Schema.Comparison
import CommonTrace.Proofs.Schema.Completion
import CommonTrace.Proofs.Schema.Courses
import CommonTrace.Proofs.Schema.DefinitionOrder
import CommonTrace.Proofs.Schema.Enumerations
import CommonTrace.Proofs.Schema.EventOrder
import CommonTrace.Proofs.Schema.Faults
import CommonTrace.Proofs.Schema.Likeness
import CommonTrace.Proofs.Schema.LinkedTables
import CommonTrace.Proofs.Schema.Literals
import CommonTrace.Proofs.Schema.Nameless
import CommonTrace.Proofs.Schema.Names
import CommonTrace.Proofs.Schema.Parts
import CommonTrace.Proofs.Schema.Passed
import CommonTrace.Proofs.Schema.Prior
import CommonTrace.Proofs.Schema.Readings
import CommonTrace.Proofs.Schema.Records
import CommonTrace.Proofs.Schema.Recursion
import CommonTrace.Proofs.Schema.Refusals
import CommonTrace.Proofs.Schema.Replay
import CommonTrace.Proofs.Schema.Requests
import CommonTrace.Proofs.Schema.RootNames
import CommonTrace.Proofs.Schema.Rounding
import CommonTrace.Proofs.Schema.ScalarType
import CommonTrace.Proofs.Schema.Steps
import CommonTrace.Proofs.Schema.Termination
import CommonTrace.Proofs.Schema.Trees
import CommonTrace.Proofs.Schema.TypeExpression
import CommonTrace.Proofs.Schema.Weights
import CommonTrace.Proofs.Schema.WellFormed
import CommonTrace.Proofs.Text.Json
import CommonTrace.Proofs.Text.Utf8
import CommonTrace.Proofs.Trace.Drain
import CommonTrace.Proofs.Trace.Errors
import CommonTrace.Proofs.Trace.Exhaustion
import CommonTrace.Proofs.Trace.FullCycles
import CommonTrace.Proofs.Trace.Merge
import CommonTrace.Proofs.Trace.Misreads
import CommonTrace.Proofs.Trace.Navigation
import CommonTrace.Proofs.Trace.PacketEnd
import CommonTrace.Proofs.Trace.Reader
import CommonTrace.Proofs.Trace.Rendering
import CommonTrace.Proofs.Trace.Seek
import CommonTrace.Proofs.Tsdl.Packets
import CommonTrace.Proofs.Tsdl.Rearranged
import CommonTrace.Schema.Assignment
import CommonTrace.Schema.Basic
import CommonTrace.Schema.Binding
import CommonTrace.Schema.Block
import CommonTrace.Schema.Clock
import CommonTrace.Schema.Error
import CommonTrace.Schema.Interchange
import CommonTrace.Schema.OfTree
import CommonTrace.Schema.ScalarType
import CommonTrace.Schema.TypeExpression
import CommonTrace.Schema.TypeTable
import CommonTrace.Schema.Visibility
import CommonTrace.Text.Calendar
import CommonTrace.Text.Json
import CommonTrace.Text.Utf8
import CommonTrace.Text.Uuid
import CommonTrace.Trace.Basic
import CommonTrace.Trace.Directory
import CommonTrace.Trace.FileEvents
import CommonTrace.Trace.FileReader
import CommonTrace.Trace.Reader
import CommonTrace.Tsdl.Text
import CommonTrace.Tsdl.Tree
