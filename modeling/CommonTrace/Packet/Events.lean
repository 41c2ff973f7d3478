import CommonTrace.Event.Basic
import CommonTrace.Packet.Basic
import CommonTrace.Packet.Cycles

/-!
# The events of a packet

A `PacketReader` hands out the events of one packet in the order in which they were recorded.  If
events were lost before the packet, the first event is a marker of the loss.  An event that cannot
be decoded ends the packet, because nobody knows where the next one starts.

An event is a header, the context that all events of the stream have, the context of its kind and
its payload.  The header says which kind of event it is, and when it took place.  An extended header
repeats both behind a compact form of them, and then the repetition counts.
-/

namespace CommonTrace

/-- What an event header says: the id of the kind of event, and the recorded time with the clock
whose cycles it counts. -/
structure EventHeader where
  id : Option Nat
  time : Option (IntegerValue × Option String)

namespace EventHeader

def empty : EventHeader where
  id := none
  time := none

/-- What the header says whose fields are in the given scope. -/
def ofScope (a : Arena) (scope : ScopeId) : EventHeader where
  id := (a.lastInteger? scope "id").bind Field.unsigned?
  time := (a.lastInteger? scope "timestamp").bind fun f => f.integer?.map (·, f.type.clock?)

def decode (limit : Nat) (t : Option FieldType) : DecodeM EventHeader := do
  match t with
  | none => return empty
  | some t =>
    let scope ← t.decodeBlock limit .streamEventHeader
    return ofScope (← get).scopes.arena scope

end EventHeader

namespace Event

def decodeBlock (limit : Nat) (block : StaticScope) (t : Option FieldType) : DecodeM Unit := do
  match t with
  | none => return
  | some t =>
    let _ ← t.decodeBlock limit block

/-- Decodes an event: its header, its kind, and its fields.  It must take some bits. -/
def decode (limit : Nat) (packet : Packet) : DecodeM (EventHeader × EventSchema) := do
  let start := (← get).cursor.position
  let header ← EventHeader.decode limit packet.stream.eventHeader
  decodeBlock limit .streamEventContext packet.stream.eventContext
  match packet.stream.event? header.id with
  | none => throw (.unknownEvent packet.streamId header.id)
  | some schema =>
    decodeBlock limit .eventContext schema.context
    decodeBlock limit .eventFields schema.fields
    if (← get).cursor.position = start then throw (.noProgress start)
    return (header, schema)

/-- The cycles of an event with the given header, where `last` are those of the event before. -/
def cyclesOf (header : EventHeader) (last : Nat) : Nat :=
  match header.time with
  | some (n, _) => extendCycles last n.word n.width
  | none => last

def ofDecoded (metadata : Metadata) (packet : Packet) (header : EventHeader) (schema : EventSchema)
    (cycles : Nat) (scopes : ScopeChain) : Event :=
  let clock := (header.time.bind Prod.snd).or packet.clock
  { streamId := packet.streamId
    schema
    timestamp := metadata.toNanoseconds clock cycles
    cycles
    absolute := (metadata.clock? clock).any Clock.absolute
    cpuId := packet.cpuId
    scopes
    lost := none }

def marker (metadata : Metadata) (packet : Packet) : Event :=
  let stop := (packet.start.map Instant.nanoseconds).getD 0
  let since := packet.lostSince.getD
    { cycles := (packet.start.map Instant.cycles).getD 0, nanoseconds := stop }
  let lost : LostEvents :=
    { count := packet.eventsLost, start := since.nanoseconds, stop := max stop since.nanoseconds }
  { streamId := packet.streamId
    schema := LostEvents.schema packet.streamId
    timestamp := since.nanoseconds
    cycles := since.cycles
    absolute := (metadata.clock? packet.clock).any Clock.absolute
    cpuId := packet.cpuId
    scopes := lost.scopes packet.scopes
    lost := some lost }

end Event

/-- What a reader of a packet does next: it hands out the marker of lost events, or it decodes
events, or it is at its end because an event could not be decoded. -/
inductive ReaderPhase where
  | marker
  | events
  | failed
deriving DecidableEq, Repr

/-- A packet of which some events have been read.  The cursor is where the next event starts, and
the cycles are those of the last event, or of the start of the packet. -/
structure PacketReader where
  packet : Packet
  cursor : Cursor
  cycles : Nat
  phase : ReaderPhase

namespace PacketReader

/-- A reader at the first event of a packet of a file. -/
def ofPacket (file : ByteArray) (packet : Packet) : Except ReadError PacketReader := do
  let cursor ← (Cursor.ofPrefix (packet.bytes file) packet.contentSize).seek packet.eventsOffset
  return {
    packet
    cursor
    cycles := (packet.start.map Instant.cycles).getD 0
    phase := if 0 < packet.eventsLost then .marker else .events }

def decodeEvent (metadata : Metadata) (limit : Nat) (r : PacketReader) :
    Except DecodeError Event × PacketReader :=
  let scopes : ScopeChain := { arena := .empty, outer := [r.packet.scopes] }
  match Event.decode limit r.packet { cursor := r.cursor, scopes } with
  | .ok (header, schema) s =>
    let cycles := Event.cyclesOf header r.cycles
    (.ok (Event.ofDecoded metadata r.packet header schema cycles s.scopes),
      { r with cursor := s.cursor, cycles })
  | .error error s => (.error error, { r with cursor := s.cursor, phase := .failed })

/-- The next event, if there is one, and the reader behind it. -/
def next (metadata : Metadata) (limit : Nat) (r : PacketReader) :
    Option (Except DecodeError Event) × PacketReader :=
  match r.phase with
  | .marker => (some (.ok (Event.marker metadata r.packet)), { r with phase := .events })
  | .failed => (none, r)
  | .events =>
    if r.cursor.remaining = 0 then (none, r)
    else
      let (result, r) := r.decodeEvent metadata limit
      (some result, r)

/-- The next `count` events, as far as there are so many. -/
def take (metadata : Metadata) (limit : Nat) (r : PacketReader) :
    Nat → List (Except DecodeError Event)
  | 0 => []
  | count + 1 =>
    match r.next metadata limit with
    | (some result, r) => result :: r.take metadata limit count
    | (none, _) => []

/-- All events that are left.  Each takes at least one bit, except for a marker before them and an
error behind them. -/
def toList (metadata : Metadata) (limit : Nat) (r : PacketReader) :
    List (Except DecodeError Event) :=
  r.take metadata limit (r.cursor.remaining + 2)

end PacketReader

end CommonTrace
