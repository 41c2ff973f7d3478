import CommonTrace.Dictionary
import CommonTrace.FieldType.Basic
import CommonTrace.Schema.Clock
import CommonTrace.Schema.Error

/-!
# The schema of a trace

`Metadata` is what the metadata of a trace declares: the blocks of its packets and events as field
types, its streams with their events, its clocks and its environment.

A stream or an event may be declared without an id.  The selection functions then take the only one
there is.
-/

namespace CommonTrace

/-- A kind of event.  An event header selects it by its id.  The context is the one that only this
kind of event has, and the fields are its payload; the model of the event is described at
`emfUri`. -/
structure EventSchema where
  name : String
  id : Option Nat
  streamId : Option Nat
  context : Option FieldType
  fields : Option FieldType
  logLevel : Option Int
  emfUri : Option String

/-- A kind of event of which only the name is declared. -/
def EventSchema.named (name : String) : EventSchema :=
  { name, id := none, streamId := none, context := none, fields := none, logLevel := none,
    emfUri := none }

/-- A kind of stream, with the kinds of events in it: those that have an id, or the only one if it
has none.  The event context is the one that all events of the stream have. -/
structure StreamSchema where
  id : Option Nat
  packetContext : Option FieldType
  eventHeader : Option FieldType
  eventContext : Option FieldType
  events : Dictionary Nat EventSchema
  anonymousEvent : Option EventSchema

namespace StreamSchema

def empty : StreamSchema where
  id := none
  packetContext := none
  eventHeader := none
  eventContext := none
  events := .empty
  anonymousEvent := none

/-- The kind of event that a header selects, which may say nothing. -/
def event? (stream : StreamSchema) : Option Nat → Option EventSchema
  | some id => (stream.events.get? id).or stream.anonymousEvent
  | none => stream.anonymousEvent.or stream.events.only?

def eventCount (stream : StreamSchema) : Nat :=
  stream.events.size + if stream.anonymousEvent.isSome then 1 else 0

/-- The kinds of events: those with an id in the order of their ids, then the one without. -/
def eventList (stream : StreamSchema) : List EventSchema :=
  stream.events.values ++ stream.anonymousEvent.toList

end StreamSchema

/-- All that the metadata of a trace declares, and the warnings about what was passed over.  The
byte order is that of fields that declare none.  A stream without id has key 0. -/
structure Metadata where
  major : Option Nat
  minor : Option Nat
  uuid : Option Uuid
  byteOrder : ByteOrder
  packetHeader : Option FieldType
  streams : Dictionary Nat StreamSchema
  clocks : Dictionary String Clock
  env : Dictionary String EnvValue
  warnings : List Warning

namespace Metadata

/-- The stream that a packet header selects.  Where it says nothing, this is the only stream, or
stream 0 among several. -/
def stream? (metadata : Metadata) : Option Nat → Option StreamSchema
  | some id => metadata.streams.get? id
  | none => metadata.streams.only?.or (metadata.streams.get? 0)

def clock? (metadata : Metadata) : Option String → Option Clock
  | some name => metadata.clocks.get? name
  | none => metadata.clocks.only?

/-- The nanoseconds at a cycle of a clock.  Without a clock, cycles are nanoseconds. -/
def toNanoseconds (metadata : Metadata) (clock : Option String) (cycles : Nat) : Nat :=
  match metadata.clock? clock with
  | some clock => clock.toNanoseconds cycles
  | none => cycles

end Metadata

end CommonTrace
