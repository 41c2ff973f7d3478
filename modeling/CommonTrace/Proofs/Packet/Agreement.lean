import CommonTrace.Packet.Index
import CommonTrace.Proofs.Field.Agreement
import CommonTrace.Proofs.Packet.Blocks
import CommonTrace.Proofs.Packet.Failures
import CommonTrace.Proofs.Schema.Accepted
import CommonTrace.Proofs.Schema.Trees

/-!
# Lookups of a packet find what the check has found

Each block of a packet and of its events is decoded behind the blocks behind which it has been checked
(`ScopeChain.Awaits`).  So all lookups are made at their places, in header and context of a packet
(`PacketHead.placed_of_watchBytes`) as in its events (`Event.placed_of_watch`), and those by a plain path
are found.  For a tree with all of its packets and events this is `Metadata.lookups_found`.
-/

namespace CommonTrace

open Watched

/-! ## One block -/

/-- **The next block.**  The blocks in `earlier` have been decoded, and the block that comes next is
laid out and has passed the check behind them. -/
structure ScopeChain.Awaits (chain : ScopeChain) (earlier : List (StaticScope × FieldType))
    (block : StaticScope) (t : Option FieldType) : Prop where
  between : chain.Between earlier
  fresh : block ∉ earlier.map Prod.fst
  laidOut : ∃ clocks, BlockLaidOut clocks t
  passed : BlockPassed earlier block t

section Blocks

variable {limit : ℕ} {earlier : List (StaticScope × FieldType)} {block : StaticScope}
  {t : Option FieldType} {s s' : DecodeState} {lookup : Lookup}

namespace ScopeChain.Awaits

lemma placed (h : s.scopes.Awaits earlier block t) {u : FieldType} (hu : u ∈ t)
    (hl : lookup ∈ (u.watchBlock limit earlier block).lookups s) : lookup.Placed := by
  obtain ⟨clocks, hlaidOut⟩ := h.laidOut
  obtain ⟨hstruct, hwellFormed⟩ := hlaidOut u hu
  have hcheck := h.passed u hu
  cases u with
  | struct least members =>
    exact FieldType.placed_of_watchBlock h.between h.fresh hcheck hwellFormed.distinct hl
  | _ => cases hstruct

/-- Behind the step over a block the block has been decoded, too. -/
lemma adds (h : s.scopes.Awaits earlier block t) (hadds : DecodeState.Adds limit block t s s') :
    s'.scopes.Between (behind block t earlier) := by
  cases hadds with
  | missing => exact h.between
  | @decoded u _ _ _ hok =>
    obtain ⟨clocks, hlaidOut⟩ := h.laidOut
    obtain ⟨hstruct, -⟩ := hlaidOut u rfl
    cases u with
    | struct least members => exact h.between.decodeBlock h.fresh hok
    | _ => cases hstruct

end ScopeChain.Awaits

/-! ## Header and context -/

lemma PacketHead.placed_of_watchDeclared (h : s.scopes.Awaits earlier block t)
    (hl : lookup ∈ (watchDeclared limit earlier block t).lookups s) : lookup.Placed := by
  cases t with
  | none => exact absurd hl List.not_mem_nil
  | some t =>
    rw [watchDeclared, mem_lookups_map] at hl
    exact h.placed rfl hl

/-! ## Parts of an event -/

lemma EventHeader.placed_of_watch (h : s.scopes.Awaits earlier .streamEventHeader t)
    (hl : lookup ∈ (EventHeader.watch limit earlier t).lookups s) : lookup.Placed := by
  cases t with
  | none => exact absurd hl List.not_mem_nil
  | some t =>
    rw [EventHeader.watch, mem_lookups_bind] at hl
    rcases hl with hl | ⟨_, _, _, hl⟩
    · exact h.placed rfl hl
    · rw [mem_lookups_quiet_bind] at hl
      obtain ⟨_, _, _, hl⟩ := hl
      exact absurd hl List.not_mem_nil

lemma Event.placed_of_watchBlock (h : s.scopes.Awaits earlier block t)
    (hl : lookup ∈ (Event.watchBlock limit earlier block t).lookups s) : lookup.Placed := by
  cases t with
  | none => exact absurd hl List.not_mem_nil
  | some t =>
    rw [Event.watchBlock, mem_lookups_bind] at hl
    rcases hl with hl | ⟨_, _, _, hl⟩
    · exact h.placed rfl hl
    · exact absurd hl List.not_mem_nil

end Blocks

/-! ## Blocks in their order -/

section Order

variable {metadata : Metadata} {stream : StreamSchema} {event : EventSchema} {block : StaticScope}
  {key : ℕ} {chain : ScopeChain}

lemma fresh_beforeEvents (hheader : block ≠ .tracePacketHeader)
    (hcontext : block ≠ .streamPacketContext) :
    block ∉ (blocksBeforeEvents metadata stream).map Prod.fst :=
  not_mem_names_behind hcontext (not_mem_names_behind hheader List.not_mem_nil)

lemma fresh_ofAllEvents (hpacketHeader : block ≠ .tracePacketHeader)
    (hpacketContext : block ≠ .streamPacketContext) (hheader : block ≠ .streamEventHeader)
    (hcontext : block ≠ .streamEventContext) :
    block ∉ (blocksOfAllEvents metadata stream).map Prod.fst :=
  not_mem_names_behind hcontext
    (not_mem_names_behind hheader (fresh_beforeEvents hpacketHeader hpacketContext))

namespace Metadata.Accepted

lemma awaitsPacketHeader (h : metadata.Accepted) (hpresent : metadata.streams.entries ≠ []) :
    ScopeChain.empty.Awaits [] .tracePacketHeader metadata.packetHeader where
  between := .empty
  fresh := List.not_mem_nil
  laidOut := ⟨_, h.packetHeader⟩
  passed := h.headerPassed hpresent

variable (h : metadata.Accepted) (hstream : (key, stream) ∈ metadata.streams.entries)

include h hstream

lemma awaitsPacketContext
    (hbetween : chain.Between (behind .tracePacketHeader metadata.packetHeader [])) :
    chain.Awaits (behind .tracePacketHeader metadata.packetHeader []) .streamPacketContext
      stream.packetContext where
  between := hbetween
  fresh := not_mem_names_behind (by decide) List.not_mem_nil
  laidOut := ⟨_, (h.streams _ hstream).packetContext⟩
  passed := (h.streamPassed hstream).packetContext

lemma awaitsEventHeader (hbetween : chain.Between (blocksBeforeEvents metadata stream)) :
    chain.Awaits (blocksBeforeEvents metadata stream) .streamEventHeader stream.eventHeader where
  between := hbetween
  fresh := fresh_beforeEvents (by decide) (by decide)
  laidOut := ⟨_, (h.streams _ hstream).eventHeader⟩
  passed := (h.streamPassed hstream).eventHeader

lemma awaitsStreamContext
    (hbetween : chain.Between
      (behind .streamEventHeader stream.eventHeader (blocksBeforeEvents metadata stream))) :
    chain.Awaits (behind .streamEventHeader stream.eventHeader (blocksBeforeEvents metadata stream))
      .streamEventContext stream.eventContext where
  between := hbetween
  fresh := not_mem_names_behind (by decide) (fresh_beforeEvents (by decide) (by decide))
  laidOut := ⟨_, (h.streams _ hstream).eventContext⟩
  passed := (h.streamPassed hstream).eventContext

lemma awaitsContext (hevent : event ∈ stream.eventList)
    (hbetween : chain.Between (blocksOfAllEvents metadata stream)) :
    chain.Awaits (blocksOfAllEvents metadata stream) .eventContext event.context where
  between := hbetween
  fresh := fresh_ofAllEvents (by decide) (by decide) (by decide) (by decide)
  laidOut := ⟨_, ((h.streams _ hstream).events event hevent).context⟩
  passed := (h.streamPassed hstream).context event hevent

lemma awaitsFields (hevent : event ∈ stream.eventList)
    (hbetween : chain.Between
      (behind .eventContext event.context (blocksOfAllEvents metadata stream))) :
    chain.Awaits (behind .eventContext event.context (blocksOfAllEvents metadata stream))
      .eventFields event.fields where
  between := hbetween
  fresh := not_mem_names_behind (by decide)
    (fresh_ofAllEvents (by decide) (by decide) (by decide) (by decide))
  laidOut := ⟨_, ((h.streams _ hstream).events event hevent).fields⟩
  passed := (h.streamPassed hstream).fields event hevent

end Metadata.Accepted

end Order

/-! ## Packets -/

section Packets

variable {metadata : Metadata} {options : ReadOptions} {data : ByteArray} {lookup : Lookup}

/-- **All lookups in header and context of a packet are made at their places.** -/
theorem PacketHead.placed_of_watchBytes (h : metadata.Accepted)
    (hpresent : metadata.streams.entries ≠ [])
    (hl : lookup ∈ (watchBytes metadata options data).2) : lookup.Placed := by
  have hfirst := h.awaitsPacketHeader hpresent
  unfold watchBytes at hl
  simp only [unwatched_watchDeclared] at hl
  split at hl
  · exact placed_of_watchDeclared hfirst hl
  · rename_i header state hheader
    have hbetween := hfirst.adds (adds_of_decodeDeclared (ok_of_run hheader))
    split at hl
    · exact placed_of_watchDeclared hfirst hl
    · rename_i stream hstream
      obtain ⟨key, hmem⟩ := exists_of_selectStream hstream
      have hsecond := h.awaitsPacketContext hmem hbetween
      rcases List.mem_append.mp hl with hl | hl
      · exact placed_of_watchDeclared hfirst hl
      · exact placed_of_watchDeclared hsecond hl

/-- All plain lookups in header and context of a packet are found. -/
theorem PacketHead.found_of_watchBytes (h : metadata.Accepted)
    (hpresent : metadata.streams.entries ≠ [])
    (hl : lookup ∈ (watchBytes metadata options data).2)
    (hplain : lookup.view.IsPlain lookup.path) : lookup.Found options.lengthLimit :=
  (placed_of_watchBytes h hpresent hl).found _ hplain

/-- **What is known of a packet**: its stream is one of the metadata, and its arena has the blocks
before the events of that stream. -/
structure PacketKnown (metadata : Metadata) (stream : StreamSchema) (scopes : Arena) : Prop where
  declared : ∃ key, (key, stream) ∈ metadata.streams.entries
  between : ScopeChain.Between { arena := scopes, outer := [] } (blocksBeforeEvents metadata stream)

lemma PacketHead.known (h : metadata.Accepted) {head : PacketHead}
    (hok : ofBytes metadata options data = .ok head) :
    PacketKnown metadata head.stream head.scopes := by
  obtain ⟨s, s₁, s₂, hempty, hheader, ⟨key, hmem⟩, hcontext, hscopes⟩ := exists_steps_of_ofBytes hok
  have hfirst := h.awaitsPacketHeader (List.ne_nil_of_mem hmem)
  rw [← hempty] at hfirst
  have hall := (h.awaitsPacketContext hmem (hfirst.adds hheader)).adds hcontext
  have houter : s₂.scopes.outer = [] := by
    rw [hcontext.outer_eq, hheader.outer_eq, hempty]
    rfl
  have hchain : s₂.scopes = { arena := head.scopes, outer := [] } := by
    rw [hscopes, ← houter]
  rw [hchain] at hall
  exact ⟨⟨key, hmem⟩, hall⟩

theorem PacketIndex.known_of_ofFile (h : metadata.Accepted) {packet : Packet}
    (hmem : .ok packet ∈ ofFile metadata options data) :
    PacketKnown metadata packet.stream packet.scopes := by
  obtain ⟨head, hhead⟩ := exists_head_of_mem (mem_packets.mpr hmem)
  rw [hhead.stream_eq, hhead.scopes_eq]
  exact PacketHead.known h hhead.decoded

/-! ## Events -/

/-- **All lookups in an event are made at their places**, if the arena of its packet is the one around
that of the event. -/
theorem Event.placed_of_watch {limit : ℕ} {packet : Packet} {s : DecodeState}
    (h : metadata.Accepted) (hknown : PacketKnown metadata packet.stream packet.scopes)
    (hscopes : s.scopes = { arena := .empty, outer := [packet.scopes] })
    (hl : lookup ∈ (watch limit metadata packet).lookups s) : lookup.Placed := by
  obtain ⟨key, hmem⟩ := hknown.declared
  have hpacket : s.scopes.Between (blocksBeforeEvents metadata packet.stream) := by
    rw [hscopes]
    exact hknown.between.within
  have hheader := h.awaitsEventHeader hmem hpacket
  rw [watch, mem_lookups_quiet_bind] at hl
  obtain ⟨_, s₁, hget, hl⟩ := hl
  cases hget
  rw [mem_lookups_bind] at hl
  rcases hl with hl | ⟨header, s₂, hok, hl⟩
  · exact EventHeader.placed_of_watch hheader hl
  rw [EventHeader.unwatched_watch] at hok
  have hstream := h.awaitsStreamContext hmem (hheader.adds (EventHeader.adds_of_decode hok))
  rw [mem_lookups_bind] at hl
  rcases hl with hl | ⟨_, s₃, hok, hl⟩
  · exact placed_of_watchBlock hstream hl
  rw [unwatched_watchBlock] at hok
  -- without a kind of event that the header selects there are no further blocks
  split at hl
  · exact absurd hl List.not_mem_nil
  rename_i event hevent
  have hevent := StreamSchema.mem_of_event? hevent
  have hcontext := h.awaitsContext hmem hevent (hstream.adds (adds_of_decodeBlock hok))
  rw [mem_lookups_bind] at hl
  rcases hl with hl | ⟨_, s₄, hok, hl⟩
  · exact placed_of_watchBlock hcontext hl
  rw [unwatched_watchBlock] at hok
  have hfields := h.awaitsFields hmem hevent (hcontext.adds (adds_of_decodeBlock hok))
  rw [mem_lookups_bind] at hl
  rcases hl with hl | ⟨_, _, _, hl⟩
  · exact placed_of_watchBlock hfields hl
  · exact absurd hl List.not_mem_nil

/-- All plain lookups in an event are found. -/
theorem Event.found_of_watch {limit : ℕ} {packet : Packet} {s : DecodeState}
    (h : metadata.Accepted) (hknown : PacketKnown metadata packet.stream packet.scopes)
    (hscopes : s.scopes = { arena := .empty, outer := [packet.scopes] })
    (hl : lookup ∈ (watch limit metadata packet).lookups s)
    (hplain : lookup.view.IsPlain lookup.path) : lookup.Found limit :=
  (placed_of_watch h hknown hscopes hl).found _ hplain

end Packets

/-! ## All lookups of a trace -/

/-- **Lookups as the metadata promises them**: those by a plain path find what the check has found, and
whenever the decoding fails for a path, one of the lookups has failed in this way. -/
structure Lookup.Reliable (limit : ℕ) (lookups : List Lookup) (fails : PathFailure → Prop) :
    Prop where
  found : ∀ lookup ∈ lookups, lookup.view.IsPlain lookup.path → lookup.Found limit
  noted : ∀ failure, fails failure →
    ∃ lookup ∈ lookups, ∃ s, lookup.attempt limit lookup.state = .error (.path failure) s

/-- **Lookups find what the check has found.**  A tree that declares a stream or an event has been
accepted.  A packet, whatever its bytes, and each event of each packet of a file are watched while they
are decoded.  Then all lookups by a plain path find a field of the type that the check has found, and
they fail for the value of that field only; no failure of a path has another cause. -/
theorem Metadata.lookups_found {root : Tsdl.Node} {metadata : Metadata}
    (h : Metadata.ofTree root = .ok metadata) (hdeclares : root.declaresEvents = true)
    (options : ReadOptions) (file : ByteArray) :
    (∀ (bytes : ByteArray),
      (PacketHead.watchBytes metadata options bytes).1 =
          PacketHead.ofBytes metadata options bytes ∧
        Lookup.Reliable options.lengthLimit (PacketHead.watchBytes metadata options bytes).2
          fun failure => PacketHead.ofBytes metadata options bytes =
            .error (.decode (.path failure))) ∧
    ∀ packet, .ok packet ∈ PacketIndex.ofFile metadata options file →
      (Event.watch options.lengthLimit metadata packet).unwatched =
          Event.decode options.lengthLimit packet ∧
        ∀ (cursor : Cursor),
          let s : DecodeState :=
            { cursor, scopes := { arena := .empty, outer := [packet.scopes] } }
          Lookup.Reliable options.lengthLimit
            ((Event.watch options.lengthLimit metadata packet).lookups s)
            fun failure => ∃ s', Event.decode options.lengthLimit packet s =
              .error (.path failure) s' := by
  obtain ⟨haccepted, hpresent⟩ := accepted_of_ofTree h
  constructor
  · intro bytes
    have hwatch := PacketHead.watchBytes_fst metadata options bytes
    refine ⟨hwatch, fun lookup hlookup hplain => ?_, fun failure hfail => ?_⟩
    · exact PacketHead.found_of_watchBytes haccepted (hpresent.mp hdeclares) hlookup hplain
    · rw [← hwatch] at hfail
      exact PacketHead.exists_of_watchBytes haccepted (hpresent.mp hdeclares) hfail
  · intro packet hpacket
    have hknown := PacketIndex.known_of_ofFile haccepted hpacket
    obtain ⟨key, hstream⟩ := hknown.declared
    have hwatch := Event.unwatched_watch options.lengthLimit metadata packet
    refine ⟨hwatch, fun cursor => ⟨fun lookup hlookup hplain => ?_, ?_⟩⟩
    · exact Event.found_of_watch haccepted hknown rfl hlookup hplain
    · rintro failure ⟨s', hfail⟩
      rw [← hwatch] at hfail
      exact Event.accounts_watch (haccepted.streamPassed hstream) _ failure s' hfail

section Example

open Tsdl

/-- A tree with one kind of event, the payload of which is a number of bytes and that many bytes. -/
def countedBytes : Node :=
  .block .root
    [.block .event
      [.value "name" (.word .unaryString "e"),
        .type "fields" (.struct
          [.member (.integer "8") "n" [],
            .member (.integer "8") "xs" [.word .unaryString "n"]])]]

/-- Whether an event at the start of the only packet of a file makes a lookup by a plain path. -/
def looksUpPlainly (root : Node) (file : ByteArray) : Bool :=
  match Metadata.ofTree root with
  | .error _ => false
  | .ok metadata =>
    match PacketIndex.ofFile metadata {} file with
    | [.ok packet] =>
      let lookups := (Event.watch (twoPow 24) metadata packet).lookups
        { cursor := .ofBytes file, scopes := { arena := .empty, outer := [packet.scopes] } }
      lookups.any fun lookup => lookup.view.IsPlain lookup.path
    | _ => false

theorem lookups_found_countedBytes : ∃ metadata packet lookup,
    Metadata.ofTree countedBytes = .ok metadata ∧
      .ok packet ∈ PacketIndex.ofFile metadata {} ⟨#[2, 5, 6]⟩ ∧
      lookup ∈ (Event.watch (twoPow 24) metadata packet).lookups
        { cursor := .ofBytes ⟨#[2, 5, 6]⟩,
          scopes := { arena := .empty, outer := [packet.scopes] } } ∧
      lookup.view.IsPlain lookup.path ∧ lookup.Found (twoPow 24) := by
  have hreads : looksUpPlainly countedBytes ⟨#[2, 5, 6]⟩ = true := by decide +kernel
  unfold looksUpPlainly at hreads
  split at hreads
  · cases hreads
  · rename_i metadata hmetadata
    split at hreads
    · rename_i packet hpackets
      obtain ⟨lookup, hlookup, hplain⟩ := List.any_eq_true.mp hreads
      have hplain := of_decide_eq_true hplain
      have hpacket : .ok packet ∈ PacketIndex.ofFile metadata {} ⟨#[2, 5, 6]⟩ := by
        rw [hpackets]
        exact List.mem_singleton_self _
      have hevents := (Metadata.lookups_found hmetadata (by decide +kernel) {} ⟨#[2, 5, 6]⟩).2
      have hfound := ((hevents packet hpacket).2 _).found lookup hlookup hplain
      exact ⟨metadata, packet, lookup, hmetadata, hpacket, hlookup, hplain, hfound⟩
    · cases hreads

end Example

end CommonTrace
