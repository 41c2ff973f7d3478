import CommonTrace.Packet.Events
import CommonTrace.Packet.Head
import CommonTrace.Proofs.Field.Lookups
import CommonTrace.Proofs.Schema.Accepted

/-!
# Which lookups reading a packet makes

A packet is decoded in two passes.  `PacketHead.watchBytes` watches the first, over its header and
context, and `Event.watch` the second, over the blocks of one event.  Each block is decoded at a place
of which the check has the view with all blocks before it.

Without the notes the watched decodings are the decodings themselves (`PacketHead.watchBytes_fst` and
`Event.unwatched_watch`).
-/

namespace CommonTrace

open Watched

/-! ## Header and context -/

namespace PacketHead

/-- Decodes a block if it has a layout. -/
def watchDeclared (limit : ℕ) (earlier : List (StaticScope × FieldType)) (block : StaticScope)
    (t : Option FieldType) : Watched (Option ScopeId) :=
  match t with
  | some t => some <$> t.watchBlock limit earlier block
  | none => pure none

lemma unwatched_watchDeclared (limit : ℕ) (earlier : List (StaticScope × FieldType))
    (block : StaticScope) (t : Option FieldType) :
    (watchDeclared limit earlier block t).unwatched = decodeDeclared limit block t := by
  cases t with
  | none => rfl
  | some t => rw [watchDeclared, decodeDeclared, unwatched_map, FieldType.unwatched_watchBlock]

/-- Decodes and checks what stands before the events of the packet at the start of `data`. -/
def watchBytes (metadata : Metadata) (options : ReadOptions) (data : ByteArray) :
    Except FormatError PacketHead × List Lookup :=
  let start : DecodeState := { cursor := .ofBytes data, scopes := .empty }
  let watchHeader := watchDeclared options.lengthLimit [] .tracePacketHeader metadata.packetHeader
  let earlier := behind .tracePacketHeader metadata.packetHeader []
  match run watchHeader.unwatched start with
  | .error error => (.error error, watchHeader.lookups start)
  | .ok (header, state) =>
    match selectStream metadata options state.scopes.arena header with
    | .error error => (.error error, watchHeader.lookups start)
    | .ok stream =>
      let watchContext :=
        watchDeclared options.lengthLimit earlier .streamPacketContext stream.packetContext
      let head := (run watchContext.unwatched state).map fun (context, state) =>
        { stream, scopes := state.scopes.arena, context, size := state.cursor.position }
      (head, watchHeader.lookups start ++ watchContext.lookups state)

/-- Without the notes, the watched decoding is the decoding itself. -/
theorem watchBytes_fst (metadata : Metadata) (options : ReadOptions) (data : ByteArray) :
    (watchBytes metadata options data).1 = ofBytes metadata options data := by
  simp only [watchBytes, ofBytes, unwatched_watchDeclared]
  cases run (decodeDeclared options.lengthLimit .tracePacketHeader metadata.packetHeader)
    { cursor := .ofBytes data, scopes := .empty } with
  | error error => rfl
  | ok result =>
    obtain ⟨header, state⟩ := result
    cases hstream : selectStream metadata options state.scopes.arena header with
    | error error =>
      simp only [hstream, Bind.bind, Except.bind]
    | ok stream =>
      simp only [hstream, Bind.bind, Except.bind]
      cases run (decodeDeclared options.lengthLimit .streamPacketContext stream.packetContext) state <;>
        rfl

lemma ok_of_run {α : Type} {step : DecodeM α} {a : α} {s s' : DecodeState}
    (h : run step s = .ok (a, s')) : step s = .ok a s' := by
  unfold run at h
  split at h
  · rename_i hok
    cases h
    exact hok
  · cases h

lemma exists_of_selectStream {metadata : Metadata} {options : ReadOptions}
    {scopes : Arena} {header : Option ScopeId} {stream : StreamSchema}
    (h : selectStream metadata options scopes header = .ok stream) :
    ∃ key, (key, stream) ∈ metadata.streams.entries := by
  obtain ⟨_, -, h⟩ := exists_of_bind_eq_ok h
  obtain ⟨_, -, h⟩ := exists_of_bind_eq_ok h
  dsimp only at h
  split at h
  · cases h
  · rename_i hstream
    cases h
    exact Metadata.exists_of_stream? hstream

end PacketHead

/-! ## Events -/

/-- Decodes the header of an event. -/
def EventHeader.watch (limit : ℕ) (earlier : List (StaticScope × FieldType))
    (t : Option FieldType) : Watched EventHeader := do
  match t with
  | none => return empty
  | some t =>
    let scope ← t.watchBlock limit earlier .streamEventHeader
    return ofScope (← quiet get).scopes.arena scope

lemma EventHeader.unwatched_watch (limit : ℕ) (earlier : List (StaticScope × FieldType))
    (t : Option FieldType) : (EventHeader.watch limit earlier t).unwatched = decode limit t := by
  cases t with
  | none => rfl
  | some t =>
    rw [EventHeader.watch, decode, unwatched_bind, FieldType.unwatched_watchBlock]
    refine congrArg _ (funext fun scope => ?_)
    rw [unwatched_bind]
    rfl

namespace Event

/-- Decodes a block of an event, if it has a layout. -/
def watchBlock (limit : ℕ) (earlier : List (StaticScope × FieldType)) (block : StaticScope)
    (t : Option FieldType) : Watched Unit := do
  match t with
  | none => return
  | some t =>
    let _ ← t.watchBlock limit earlier block

lemma unwatched_watchBlock (limit : ℕ) (earlier : List (StaticScope × FieldType))
    (block : StaticScope) (t : Option FieldType) :
    (watchBlock limit earlier block t).unwatched = decodeBlock limit block t := by
  cases t with
  | none => rfl
  | some t =>
    rw [watchBlock, decodeBlock, unwatched_bind, FieldType.unwatched_watchBlock]
    rfl

/-- Decodes an event of a packet. -/
def watch (limit : ℕ) (metadata : Metadata) (packet : Packet) :
    Watched (EventHeader × EventSchema) := do
  let stream := packet.stream
  let earlier := blocksBeforeEvents metadata stream
  let start := (← quiet get).cursor.position
  let header ← EventHeader.watch limit earlier stream.eventHeader
  watchBlock limit (behind .streamEventHeader stream.eventHeader earlier) .streamEventContext
    stream.eventContext
  let earlier := blocksOfAllEvents metadata stream
  match stream.event? header.id with
  | none => quiet (throw (.unknownEvent packet.streamId header.id))
  | some schema =>
    watchBlock limit earlier .eventContext schema.context
    watchBlock limit (behind .eventContext schema.context earlier) .eventFields schema.fields
    quiet do
      if (← get).cursor.position = start then throw (.noProgress start)
      return (header, schema)

/-- Without the notes, the watched decoding is the decoding itself. -/
theorem unwatched_watch (limit : ℕ) (metadata : Metadata) (packet : Packet) :
    (watch limit metadata packet).unwatched = decode limit packet := by
  rw [watch, decode, unwatched_bind]
  refine congrArg _ (funext fun s => ?_)
  rw [unwatched_bind, EventHeader.unwatched_watch]
  refine congrArg _ (funext fun header => ?_)
  rw [unwatched_bind, unwatched_watchBlock]
  refine congrArg _ (funext fun _ => ?_)
  cases packet.stream.event? header.id with
  | none => rfl
  | some schema =>
    rw [unwatched_bind, unwatched_watchBlock]
    refine congrArg _ (funext fun _ => ?_)
    rw [unwatched_bind, unwatched_watchBlock]
    rfl

end Event

end CommonTrace
