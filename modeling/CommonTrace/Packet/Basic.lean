import CommonTrace.Field.Decode
import CommonTrace.Schema.Basic

/-!
# Packets

A stream file is a sequence of packets.  A packet starts with a header, which every packet of the
trace has, and a context, which depends on the stream; then come the events, and padding may follow
up to the size of the packet.  Header and context hold fields with known names: a magic number, the
identifier of the trace, the stream, the sizes, the time stamps of the packet, a running total of
discarded events, and the processor.
-/

namespace CommonTrace

/-- The bounds and checks under which a trace is read: the greatest number of elements of one
array or sequence, and whether packets are rejected that have a wrong magic number or the
identifier of another trace. -/
structure ReadOptions where
  lengthLimit : Nat := twoPow 24
  checkMagic : Bool := true
  checkUuid : Bool := true

/-- A reading of a clock, with the nanoseconds from its origin that it stands for. -/
structure Instant where
  cycles : Nat
  nanoseconds : Nat
deriving DecidableEq, Repr

/-- A packet that has been located in its file.  It is the packet `index` of the file, from the
byte `offset` on.  Sizes are in bits: the content is header, context and events, of which the first
starts at `eventsOffset`, and the next packet follows `packetSize` bits later.  The id of a stream
that has none is 0.

The tracer had discarded `eventsDiscarded` events in all at the end of the packet, and
`eventsLost` since the packet before it, which ended at `lostSince`. -/
structure Packet where
  index : Nat
  offset : Nat
  contentSize : Nat
  packetSize : Nat
  streamId : Nat
  stream : StreamSchema
  start : Option Instant
  stop : Option Instant
  eventsDiscarded : Option Nat
  eventsLost : Nat
  lostSince : Option Instant
  cpuId : Option Nat
  clock : Option String
  scopes : Arena
  eventsOffset : Nat

namespace Packet

def endOffset (p : Packet) : Nat :=
  p.offset + p.packetSize / 8

/-- Whether an event at the given nanosecond or later may be in the packet. -/
def endsAtOrAfter (p : Packet) (nanoseconds : Nat) : Bool :=
  p.stop.all fun stop => nanoseconds ≤ stop.nanoseconds

/-- The bytes of the packet in its file; there are none if the file ends before the packet. -/
def bytes (p : Packet) (file : ByteArray) : ByteArray :=
  if p.endOffset ≤ file.size then file.extract p.offset p.endOffset else .empty

end Packet

/-- Why a packet could not be located.  A size is invalid if it is zero or no number of whole
bytes. -/
inductive FormatError where
  | contentExceedsPacket (content packet : Nat)
  | headerExceedsContent (header content : Nat)
  | truncatedPacket (offset needed available : Nat)
  | invalidPacketSize (size : Nat)
  | badMagic (magic : Nat)
  | uuidMismatch
  | unknownStream (id : Nat)
  | decode (error : DecodeError)
deriving DecidableEq, Repr

/-- Whether the program stops at the error and does not go on to report it. -/
def FormatError.stops : FormatError → Bool
  | .decode error => error.stops
  | _ => false

def hexText (n : Nat) : String :=
  "0x" ++ String.ofList (Nat.toDigits 16 n)

def FormatError.message : FormatError → String
  | .contentExceedsPacket content packet =>
    s!"Content size {content} bits exceeds packet size {packet} bits"
  | .headerExceedsContent header content =>
    s!"Packet header and context take {header} bits, beyond content size {content} bits"
  | .truncatedPacket offset needed available =>
    s!"Packet at byte {offset} needs {needed} bytes, only {available} available"
  | .invalidPacketSize size => s!"Invalid packet size: {size} bits"
  | .badMagic magic => s!"Bad packet magic: {hexText magic}"
  | .uuidMismatch => "Packet uuid does not match trace uuid"
  | .unknownStream id => s!"Packet references unknown stream {id}"
  | .decode error => s!"Packet header or context failed to decode: {error.message}"

end CommonTrace
