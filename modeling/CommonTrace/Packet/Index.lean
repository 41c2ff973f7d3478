import CommonTrace.Packet.Head

/-!
# Locating packets

The packets of a file follow each other without gaps, so each is located by the sizes of those
before it.  A packet that is broken stands in the index as its error.  Where its size is sound the
packet behind it can still be located; otherwise the index ends there.

The tracer keeps a running total of the events it had to discard.  What a packet adds to the total
of the last packet that has one was lost between the packets; a total that is smaller has started
anew.
-/

namespace CommonTrace

/-- The packets of a file, in their order. -/
abbrev PacketIndex := List (Except FormatError Packet)

/-- A packet that could not be located, with the byte at which the next one starts if that is
known. -/
structure BrokenPacket where
  error : FormatError
  next : Option Nat

namespace Packet

/-- The packet that is known from its head, which stands at a byte of a file with `available` bytes
from there on. -/
def ofHead (metadata : Metadata) (index offset available : Nat) (head : PacketHead) :
    Except BrokenPacket Packet :=
  let (contentSize, packetSize) := head.sizes available
  let next := offset + packetSize / 8
  if packetSize = 0 ∨ packetSize % 8 ≠ 0 then .error ⟨.invalidPacketSize packetSize, none⟩
  else if available < packetSize / 8 then
    .error ⟨.truncatedPacket offset (packetSize / 8) available, none⟩
  else if packetSize < contentSize then
    .error ⟨.contentExceedsPacket contentSize packetSize, some next⟩
  else if contentSize < head.size then
    .error ⟨.headerExceedsContent head.size contentSize, some next⟩
  else
    .ok {
      index, offset, contentSize, packetSize
      streamId := head.stream.id.getD 0
      stream := head.stream
      start := head.instant? metadata "timestamp_begin"
      stop := head.instant? metadata "timestamp_end"
      eventsDiscarded := head.number? "events_discarded"
      eventsLost := 0
      lostSince := none
      cpuId := head.number? "cpu_id"
      clock := head.clock?
      scopes := head.scopes
      eventsOffset := head.size }

def locate (metadata : Metadata) (options : ReadOptions) (file : ByteArray) (index offset : Nat) :
    Except BrokenPacket Packet :=
  match PacketHead.ofBytes metadata options (file.extract offset file.size) with
  | .ok head => ofHead metadata index offset (file.size - offset) head
  | .error error => .error ⟨error, none⟩

/-- The packet with the events counted that were lost before it, where `discarded` is the total
before it and `previousStop` the end of the packet before it. -/
def countLost (p : Packet) (discarded : Nat) (previousStop : Option Instant) : Packet :=
  match p.eventsDiscarded with
  | some total =>
    if discarded < total then
      { p with eventsLost := total - discarded, lostSince := previousStop }
    else p
  | none => p

end Packet

namespace PacketIndex

/-- The packets of a file from a byte on, at most `count` of them, where `index` are before them. -/
def locateFrom (metadata : Metadata) (options : ReadOptions) (file : ByteArray)
    (index offset : Nat) : Nat → PacketIndex
  | 0 => []
  | count + 1 =>
    if file.size ≤ offset then []
    else
      match Packet.locate metadata options file index offset with
      | .ok p => .ok p :: locateFrom metadata options file (index + 1) p.endOffset count
      | .error broken =>
        .error broken.error ::
          match broken.next with
          | some next => locateFrom metadata options file (index + 1) next count
          | none => []

/-- The index with lost events counted, where `discarded` is the total before it and `previousStop`
the end of the last packet before it that could be located. -/
def countLost (discarded : Nat) (previousStop : Option Instant) : PacketIndex → PacketIndex
  | [] => []
  | .error error :: rest => .error error :: countLost discarded previousStop rest
  | .ok p :: rest =>
    .ok (p.countLost discarded previousStop) ::
      countLost (p.eventsDiscarded.getD discarded) p.stop rest

/-- The index of a file.  Every packet takes at least one byte, so there are no more packets than
bytes. -/
def ofFile (metadata : Metadata) (options : ReadOptions) (file : ByteArray) : PacketIndex :=
  countLost 0 none (locateFrom metadata options file 0 0 file.size)

/-- Whether the program stops while it makes the index. -/
def stops (index : PacketIndex) : Bool :=
  index.any fun
    | .ok _ => false
    | .error error => error.stops

end PacketIndex

end CommonTrace
