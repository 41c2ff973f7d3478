import CommonTrace.Packet.Events
import CommonTrace.Packet.Index
import CommonTrace.Tsdl.Text

/-!
# Traces

A trace is its metadata and one or more files of packets.  The packets of all files are located when
the trace is put together; events are decoded when it is read.
-/

namespace CommonTrace

/-- Why there is no trace.  The grammar has rejected the text of the metadata with a report, or
there are no files besides the metadata in the place that is named. -/
inductive OpenError where
  | notFound
  | isDirectory
  | grammar (report : String)
  | schema (error : SchemaError)
  | metadataPacket (error : Tsdl.PacketError)
  | noStreams (place : String)
deriving Repr

def OpenError.message : OpenError → String
  | .notFound => "IO error: No such file or directory (os error 2)"
  | .isDirectory => "IO error: Is a directory (os error 21)"
  | .grammar report => s!"Metadata grammar rejected input: {report}"
  | .schema error => s!"Invalid metadata: {error.message}"
  | .metadataPacket error => s!"Invalid metadata packet: {error.message}"
  | .noStreams place => s!"Trace has no stream files: {place}"

/-- A file of packets, with the packets that are in it. -/
structure StreamFile where
  name : String
  data : ByteArray
  packets : PacketIndex

/-- The packets that could be located, in the order of the file. -/
def StreamFile.located (file : StreamFile) : List Packet :=
  file.packets.filterMap Except.toOption

/-- A trace that can be read: what its metadata declares, its files, and how it is read. -/
structure Trace where
  metadata : Metadata
  files : List StreamFile
  options : ReadOptions

namespace Trace

/-- The trace with the given metadata and files, which are given by name and bytes.  There has to be
a file; `place` is where files were looked for. -/
def ofFiles (place : String) (metadata : Metadata) (files : List (String × ByteArray))
    (options : ReadOptions) : Except OpenError Trace :=
  if files.isEmpty then .error (.noStreams place)
  else
    .ok {
      metadata
      options
      files := files.map fun (name, data) =>
        { name, data, packets := PacketIndex.ofFile metadata options data } }

def ofSources (metadata : Metadata) (sources : List (String × ByteArray)) (options : ReadOptions) :
    Except OpenError Trace :=
  ofFiles "no stream sources" metadata sources options

/-- Whether the program stops while it puts the trace together. -/
def stops (trace : Trace) : Bool :=
  trace.files.any fun file => PacketIndex.stops file.packets

def packets (trace : Trace) : List Packet :=
  trace.files.flatMap StreamFile.located

/-- The nanosecond at which the first packet begins and the one at which the last packet ends.  A
packet whose end is not known counts with its beginning. -/
def timeRange? (trace : Trace) : Option (Nat × Nat) := do
  let starts := trace.packets.filterMap Packet.start
  let stops := trace.packets.filterMap fun p => p.stop.or p.start
  return (← (starts.map Instant.nanoseconds).min?, ← (stops.map Instant.nanoseconds).max?)

end Trace

end CommonTrace
