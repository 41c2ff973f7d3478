import CommonTrace.Schema.Assignment
import CommonTrace.Schema.Basic

/-!
# Events and their streams

Stream blocks and event blocks stand side by side in metadata, in any order, and an event names its
stream by id.  Where there is one stream only, neither it nor its events need to say which it is.
Where events are declared but no stream is, they belong to one stream about which nothing is
declared.

An event may lack an id as well, if it is the only one of its stream.
-/

namespace CommonTrace

/-- The key of a stream, where `alone` says that it is the only one. -/
def StreamSchema.key (alone : Bool) (stream : StreamSchema) : Except SchemaError Nat :=
  match stream.id with
  | some id => return id
  | none => if alone then return 0 else invalid .streamIdMissing

def addStream (alone : Bool) (streams : Dictionary Nat StreamSchema) (stream : StreamSchema) :
    Except SchemaError (Dictionary Nat StreamSchema) := do
  let key ← stream.key alone
  if streams.contains key then throw (.repeated (.stream key))
  return streams.insert key stream

def StreamSchema.addEvent (key : Nat) (stream : StreamSchema) (event : EventSchema) :
    Except SchemaError StreamSchema := do
  let stream ← match event.id with
    | some id =>
      if stream.events.contains id then throw (.repeated (.eventId id key))
      else pure { stream with events := stream.events.insert id event }
    | none =>
      if stream.anonymousEvent.isSome then throw (.repeated (.anonymousEvent key))
      else pure { stream with anonymousEvent := some event }
  if stream.anonymousEvent.isSome ∧ 1 < stream.eventCount then
    invalid (.eventIdMissing event.name key)
  return stream

/-- The key of the stream that an event belongs to, where `alone` says that there is only one. -/
def EventSchema.streamKey (alone : Bool) (streams : Dictionary Nat StreamSchema)
    (event : EventSchema) : Except SchemaError Nat :=
  match event.streamId with
  | some id => return id
  | none =>
    if alone then return streams.keys.head?.getD 0
    else invalid (.eventStreamMissing event.name)

def addEvent (alone : Bool) (streams : Dictionary Nat StreamSchema) (event : EventSchema) :
    Except SchemaError (Dictionary Nat StreamSchema) := do
  let key ← event.streamKey alone streams
  match streams.get? key with
  | none => invalid (.eventStreamUnknown event.name key)
  | some stream => return streams.insert key (← stream.addEvent key event)

/-- The streams that are declared, or the one that must exist because events are. -/
def presentStreams (streams : List StreamSchema) (events : List EventSchema) : List StreamSchema :=
  if streams.isEmpty && !events.isEmpty then [.empty] else streams

/-- The streams by key, with every event bound to its stream. -/
def bindEvents (streams : List StreamSchema) (events : List EventSchema) :
    Except SchemaError (Dictionary Nat StreamSchema) := do
  let present := presentStreams streams events
  let alone := present.length = 1
  events.foldlM (addEvent alone) (← present.foldlM (addStream alone) .empty)

end CommonTrace
