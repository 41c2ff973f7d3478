import CommonTrace.Trace.Basic

/-!
# What a file gives

Each file of a trace gives the events of its packets in their order.  An error stands in the place
of a packet that could not be located, and behind the events of a packet that could not be decoded
to its end; the file then goes on with its next packet.
-/

namespace CommonTrace

/-- Why a packet of a file could not be read to its end: the packet could not be located, or an
event could not be decoded. -/
inductive ReadFault where
  | format (error : FormatError)
  | decode (error : DecodeError)
deriving DecidableEq, Repr

def ReadFault.message : ReadFault → String
  | .format error => error.message
  | .decode error => error.message

/-- Whether the program stops at the fault and does not go on to report it. -/
def ReadFault.stops : ReadFault → Bool
  | .format error => error.stops
  | .decode error => error.stops

/-- A fault in a file of a trace, with the number of packets before the faulty one. -/
structure TraceError where
  file : String
  packet : Nat
  fault : ReadFault
deriving DecidableEq, Repr

def TraceError.message (e : TraceError) : String :=
  s!"{e.file} packet {e.packet}: {e.fault.message}"

namespace Trace

/-- What a reader of a packet of a file still gives: events, and an error behind them if one cannot
be decoded. -/
def packetEvents (trace : Trace) (file : StreamFile) (packet : PacketReader) :
    List (Except TraceError Event) :=
  (packet.toList trace.metadata trace.options.lengthLimit).map
    (·.mapError fun error => ⟨file.name, packet.packet.index, .decode error⟩)

/-- What an entry of the index of a file gives, where `index` entries are before it. -/
def entryEvents (trace : Trace) (file : StreamFile) (index : Nat) :
    Except FormatError Packet → List (Except TraceError Event)
  | .error error => [.error ⟨file.name, index, .format error⟩]
  | .ok packet =>
    match PacketReader.ofPacket file.data packet with
    | .error error => [.error ⟨file.name, index, .decode (.read error)⟩]
    | .ok reader => trace.packetEvents file reader

/-- What the given packets of a file give, of which the first is the packet `start`. -/
def indexEvents (trace : Trace) (file : StreamFile) (start : Nat) (packets : PacketIndex) :
    List (Except TraceError Event) :=
  (packets.zipIdx start).flatMap fun (entry, index) => trace.entryEvents file index entry

/-- What a file gives from its packet `start` on. -/
def eventsFrom (trace : Trace) (file : StreamFile) (start : Nat) : List (Except TraceError Event) :=
  trace.indexEvents file start (file.packets.drop start)

/-- What a file gives on its own. -/
def fileEvents (trace : Trace) (file : StreamFile) : List (Except TraceError Event) :=
  trace.eventsFrom file 0

end Trace

/-- The number of the first packet in which there may be events at the given nanosecond or later. -/
def StreamFile.packetAt (file : StreamFile) (nanoseconds : Nat) : Nat :=
  file.packets.findIdx fun
    | .ok packet => packet.endsAtOrAfter nanoseconds
    | .error _ => false

end CommonTrace
