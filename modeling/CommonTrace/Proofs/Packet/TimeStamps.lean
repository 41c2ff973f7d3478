import CommonTrace.Proofs.Field.LastInteger
import CommonTrace.Proofs.Packet.Blocks
import CommonTrace.Proofs.Packet.Calls

/-!
# The time of an event

The time stamp of an event is the number of its cycles in nanoseconds, on the clock that its header
gives, or else on that of its packet.  What its header says can be read off the event itself
(`Event.recorded`): it has been found when nothing but the header was decoded, and it is still found
when the event is complete.  `Event.timestamp_of_mem_toList` says both of every event that a reader of a
packet gives.
-/

namespace CommonTrace

open DecodeM

/-! ## Later states of an event -/

/-- The header of an event is still there: no scope has changed, and it is in the same scope. -/
structure DecodeState.KeepsHeader (s s' : DecodeState) : Prop extends s.KeepsScopes s' where
  header : s'.scopes.arena.block? .streamEventHeader = s.scopes.arena.block? .streamEventHeader

namespace DecodeState.KeepsHeader

variable {s s₁ s₂ : DecodeState}

lemma trans (h₁ : s.KeepsHeader s₁) (h₂ : s₁.KeepsHeader s₂) : s.KeepsHeader s₂ where
  toKeepsScopes := h₁.toKeepsScopes.trans h₂.toKeepsScopes
  header := h₂.header.trans h₁.header

lemma of_adds {limit : ℕ} {block : StaticScope} {t : Option FieldType}
    (hblock : block ≠ .streamEventHeader) (h : Adds limit block t s s₁) : s.KeepsHeader s₁ where
  toKeepsScopes := h.keepsScopes
  header := h.block?_of_ne hblock.symm

end DecodeState.KeepsHeader

/-! ## Headers -/

/-- What the header of an event says whose blocks are in the given arena. -/
def EventHeader.ofArena (a : Arena) : EventHeader :=
  match a.block? .streamEventHeader with
  | some scope => ofScope a scope
  | none => empty

/-- What the header of an event says. -/
def Event.recorded (event : Event) : EventHeader :=
  .ofArena event.scopes.arena

/-- The clock that the header of an event gives for its time. -/
def Event.ownClock? (event : Event) : Option String :=
  event.recorded.time.bind Prod.snd

/-- What is said of a header that has just been decoded can be said later, too. -/
lemma EventHeader.ofArena_of_decode {limit : ℕ} {t : Option FieldType} {header : EventHeader}
    {s s₁ s₂ : DecodeState} (h : EventHeader.decode limit t s = .ok header s₁)
    (hfresh : s.scopes.arena.block? .streamEventHeader = none) (hkeeps : s₁.KeepsHeader s₂) :
    ofArena s₂.scopes.arena = header := by
  cases t with
  | none =>
    cases h
    rw [ofArena, hkeeps.header, hfresh]
  | some t =>
    obtain ⟨scope, s', hdecode, hreturn⟩ := ok_of_bind h
    cases hreturn
    have hheader := t.block?_of_decodeBlock hdecode .streamEventHeader
    rw [if_pos rfl] at hheader
    have hlast := fun key => FieldType.lastInteger?_of_decodeBlock hdecode hkeeps.size hkeeps.scope key
    rw [ofArena, hkeeps.header, hheader]
    dsimp only
    rw [ofScope, hlast, hlast]
    rfl

namespace Event

variable {metadata : Metadata} {limit : ℕ}

/-- **What the header of an event has said** when the event was decoded can be read off the event. -/
lemma ofArena_of_decode {packet : Packet} {s s' : DecodeState} {header : EventHeader}
    {schema : EventSchema} (h : decode limit packet s = .ok (header, schema) s')
    (hfresh : s.scopes.arena.block? .streamEventHeader = none) :
    EventHeader.ofArena s'.scopes.arena = header := by
  obtain ⟨s₁, s₂, s₃, hheader, hcontext, -, hown, hfields⟩ := exists_steps_of_decode h
  have h₂ := DecodeState.KeepsHeader.of_adds (by decide) hcontext
  have h₃ := DecodeState.KeepsHeader.of_adds (by decide) hown
  have h₄ := DecodeState.KeepsHeader.of_adds (by decide) hfields
  exact EventHeader.ofArena_of_decode hheader hfresh (h₂.trans (h₃.trans h₄))

lemma timestamp_of_decodeEvent {r r' : PacketReader} {event : Event}
    (h : r.decodeEvent metadata limit = (.ok event, r')) :
    event.timestamp =
      metadata.toNanoseconds (event.ownClock?.or r.packet.clock) event.cycles := by
  unfold PacketReader.decodeEvent at h
  dsimp only at h
  split at h
  · rename_i header schema s hdecode
    have hheader := ofArena_of_decode hdecode rfl
    cases h
    simp only [ofDecoded, ownClock?, recorded, hheader]
  · cases h

/-- **The time of an event** that a reader of a packet gives, unless it is a marker. -/
theorem timestamp_of_mem_toList {r : PacketReader} {event : Event}
    (hmem : .ok event ∈ r.toList metadata limit) (hlost : event.lost = none) :
    event.timestamp =
      metadata.toNanoseconds (event.ownClock?.or r.packet.clock) event.cycles := by
  rcases PacketReader.marker_or_decodeEvent_of_mem_toList hmem with rfl | ⟨r₀, r₁, hpacket, hdecode⟩
  · exact absurd hlost (PacketReader.lost_marker _ _)
  · rw [← hpacket]
    exact timestamp_of_decodeEvent hdecode

end Event

end CommonTrace
