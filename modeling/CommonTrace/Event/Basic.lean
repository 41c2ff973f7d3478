import CommonTrace.Field.Scope
import CommonTrace.Schema.Basic

/-!
# Events

An `Event` is one record of a trace: which kind of event took place, when, and the fields that were
recorded with it.  The blocks of the event itself are in an arena of their own, around which lies
the arena of its packet.

A tracer that runs out of space discards events.  In their place stands a marker, an event of a kind
that no metadata declares, which tells how many events were lost and over what time.
-/

namespace CommonTrace

/-- Events that were discarded between two packets: how many, and the nanoseconds at which the
packet before the gap ended and the packet behind it begins. -/
structure LostEvents where
  count : Nat
  start : Nat
  stop : Nat
deriving DecidableEq, Repr

/-- A record of a trace.  It took place at the nanosecond `timestamp`, which counts from the Unix
epoch if it is `absolute`; `cycles` is the same time on its clock.  A marker of lost events is a
record, too.  The id of a stream that has none is 0. -/
structure Event where
  streamId : Nat
  schema : EventSchema
  timestamp : Nat
  cycles : Nat
  absolute : Bool
  cpuId : Option Nat
  scopes : ScopeChain
  lost : Option LostEvents

namespace Event

def blockFields (event : Event) (block : StaticScope) : List Field :=
  match event.scopes.arena.block? block with
  | some scope => event.scopes.arena.fields scope
  | none => []

def header (event : Event) : List Field :=
  event.blockFields .streamEventHeader

/-- The fields of the context that only this kind of event has. -/
def context (event : Event) : List Field :=
  event.blockFields .eventContext

def payload (event : Event) : List Field :=
  event.blockFields .eventFields

/-- The field that the text of a path leads to. -/
def field? (event : Event) (path : String) : Option Field :=
  event.scopes.lookup? path

end Event

/-! ## Markers of lost events -/

namespace LostEvents

def duration (lost : LostEvents) : Nat :=
  lost.stop - lost.start

def counterType : FieldType :=
  .integer (.plain 64 false .little)

def counter (name : String) (n : Nat) : Field where
  name
  type := counterType
  value := .integer { value := n, width := 64, signed := false }

def payload (lost : LostEvents) : List Field :=
  [counter "lost_events" lost.count, counter "duration" lost.duration]

/-- The kind of event that markers are. -/
def schema (streamId : Nat) : EventSchema :=
  { EventSchema.named "Lost event" with
    streamId := some streamId
    fields := some (.struct 1 [("lost_events", counterType), ("duration", counterType)]) }

/-- The scopes of a marker, inside those of its packet. -/
def scopes (lost : LostEvents) (packet : Arena) : ScopeChain :=
  let (scope, arena) := Arena.empty.openBlock .eventFields
  { arena := lost.payload.foldl (·.insert scope ·) arena, outer := [packet] }

end LostEvents

end CommonTrace
