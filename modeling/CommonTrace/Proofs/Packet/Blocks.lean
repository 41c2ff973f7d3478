import CommonTrace.Packet.Head
import CommonTrace.Proofs.Field.Conformance
import CommonTrace.Proofs.Packet.Origin

/-!
# One block after the other

What stands before the events of a packet is decoded in two blocks, and an event in four.  A block may have
no layout, and then nothing is decoded for it.  `DecodeState.Adds` is the step over one block, and
`PacketHead.exists_steps_of_ofBytes` and `Event.exists_steps_of_decode` say of a packet and of an event which
steps have been made for it.

A step changes none of the scopes that were there before (`DecodeState.KeepsScopes`).
-/

namespace CommonTrace

open DecodeM

namespace DecodeState

variable {limit : ℕ} {block : StaticScope} {t : Option FieldType} {s s₁ s₂ s' : DecodeState}

/-! ## Scopes that stay -/

/-- No scope has changed. -/
structure KeepsScopes (s s' : DecodeState) : Prop where
  size : s.scopes.arena.scopes.size ≤ s'.scopes.arena.scopes.size
  scope : ∀ i < s.scopes.arena.scopes.size,
    s'.scopes.arena.scopes[i]? = s.scopes.arena.scopes[i]?

namespace KeepsScopes

lemma refl (s : DecodeState) : s.KeepsScopes s :=
  ⟨Nat.le_refl _, fun _ _ => rfl⟩

lemma trans (h₁ : s.KeepsScopes s₁) (h₂ : s₁.KeepsScopes s₂) : s.KeepsScopes s₂ where
  size := Nat.le_trans h₁.size h₂.size
  scope := by
    intro i hi
    rw [h₂.scope i (Nat.lt_of_lt_of_le hi h₁.size), h₁.scope i hi]

/-- What has been opened up to a state is kept from there on. -/
lemma keeps (h : s₁.KeepsScopes s₂) (s : DecodeState) : s₂.scopes.arena.Keeps s s₁ :=
  fun i _ hlt => h.scope i hlt

end KeepsScopes

/-! ## Steps -/

/-- **The step over a block**, which is decoded if it has a layout. -/
inductive Adds (limit : ℕ) (block : StaticScope) : Option FieldType → DecodeState → DecodeState → Prop
  | missing (s : DecodeState) : Adds limit block none s s
  | decoded {t : FieldType} {scope : ScopeId} {s s' : DecodeState}
      (h : t.decodeBlock limit block s = .ok scope s') : Adds limit block (some t) s s'

namespace Adds

lemma keepsScopes (h : Adds limit block t s s') : s.KeepsScopes s' := by
  cases h with
  | missing => exact .refl s
  | @decoded t _ _ _ h =>
    obtain ⟨rfl, hcontents⟩ := FieldType.of_decodeBlock_ok h
    have hgrows := (t.decodeContents_grows limit block _).of_ok hcontents
    have hopened := s.scopes.nextScope_lt_openedBlock block
    refine ⟨Nat.le_trans (Nat.le_of_lt hopened) hgrows.size, fun i hi => ?_⟩
    have hother : some s.scopes.nextScope ≠ some i := fun heq => Nat.ne_of_gt hi (Option.some.inj heq)
    rw [hgrows.scope i (Nat.lt_trans hi hopened) hother]
    simp [ScopeChain.openedBlock, Arena.openBlock, Array.getElem?_push, Nat.ne_of_lt hi]

/-- The other blocks stay where they are. -/
lemma block?_of_ne (h : Adds limit block t s s') {other : StaticScope} (hother : other ≠ block) :
    s'.scopes.arena.block? other = s.scopes.arena.block? other := by
  cases h with
  | missing => rfl
  | @decoded t _ _ _ h => rw [t.block?_of_decodeBlock h, if_neg hother]

lemma outer_eq (h : Adds limit block t s s') : s'.scopes.outer = s.scopes.outer := by
  cases h with
  | missing => rfl
  | @decoded t _ _ _ h =>
    obtain ⟨rfl, hcontents⟩ := FieldType.of_decodeBlock_ok h
    exact ((t.decodeContents_grows limit block _).of_ok hcontents).outer

end Adds

end DecodeState

open DecodeState

/-! ## Packets and events -/

section Parts

variable {limit : ℕ} {block : StaticScope} {t : Option FieldType} {s s' : DecodeState}

lemma PacketHead.adds_of_decodeDeclared {scope : Option ScopeId}
    (h : decodeDeclared limit block t s = .ok scope s') : Adds limit block t s s' := by
  cases t with
  | none =>
    cases h
    exact .missing s
  | some t =>
    obtain ⟨_, hdecode, -⟩ := ok_of_map h
    exact .decoded hdecode

lemma EventHeader.adds_of_decode {header : EventHeader} (h : decode limit t s = .ok header s') :
    Adds limit .streamEventHeader t s s' := by
  cases t with
  | none =>
    cases h
    exact .missing s
  | some t =>
    obtain ⟨_, _, hdecode, hreturn⟩ := ok_of_bind h
    cases hreturn
    exact .decoded hdecode

lemma Event.adds_of_decodeBlock (h : decodeBlock limit block t s = .ok () s') :
    Adds limit block t s s' := by
  cases t with
  | none =>
    cases h
    exact .missing s
  | some t =>
    obtain ⟨_, _, hdecode, hreturn⟩ := ok_of_bind h
    cases hreturn
    exact .decoded hdecode

end Parts

/-- **The blocks of a packet**: the header, and the context of the stream that the header selects. -/
lemma PacketHead.exists_steps_of_ofBytes {metadata : Metadata} {options : ReadOptions} {data : ByteArray}
    {head : PacketHead} (h : ofBytes metadata options data = .ok head) :
    ∃ s s₁ s₂, s.scopes = .empty ∧
      Adds options.lengthLimit .tracePacketHeader metadata.packetHeader s s₁ ∧
      (∃ key, (key, head.stream) ∈ metadata.streams.entries) ∧
      Adds options.lengthLimit .streamPacketContext head.stream.packetContext s₁ s₂ ∧
      head.scopes = s₂.scopes.arena := by
  obtain ⟨⟨header, s₁⟩, hheader, h⟩ := exists_of_bind_eq_ok h
  obtain ⟨stream, hstream, h⟩ := exists_of_bind_eq_ok h
  obtain ⟨⟨context, s₂⟩, hcontext, h⟩ := exists_of_bind_eq_ok h
  cases h
  exact ⟨_, s₁, s₂, rfl, adds_of_decodeDeclared (ok_of_run hheader), exists_of_selectStream hstream,
    adds_of_decodeDeclared (ok_of_run hcontext), rfl⟩

/-- **The blocks of an event**: its header, and behind it those whose layouts are known then. -/
lemma Event.exists_steps_of_decode {limit : ℕ} {packet : Packet} {header : EventHeader}
    {schema : EventSchema} {s s' : DecodeState} (h : decode limit packet s = .ok (header, schema) s') :
    ∃ s₁ s₂ s₃, EventHeader.decode limit packet.stream.eventHeader s = .ok header s₁ ∧
      Adds limit .streamEventContext packet.stream.eventContext s₁ s₂ ∧
      packet.stream.event? header.id = some schema ∧
      Adds limit .eventContext schema.context s₂ s₃ ∧ Adds limit .eventFields schema.fields s₃ s' := by
  unfold decode at h
  rw [get_bind_apply] at h
  obtain ⟨header', s₁, hheader, h⟩ := ok_of_bind h
  obtain ⟨_, s₂, hcontext, h⟩ := ok_of_bind h
  cases hschema : packet.stream.event? header'.id with
  | none =>
    rw [hschema] at h
    cases h
  | some schema' =>
    rw [hschema] at h
    obtain ⟨_, s₃, hown, h⟩ := ok_of_bind h
    obtain ⟨_, s₄, hfields, h⟩ := ok_of_bind h
    rw [get_bind_apply] at h
    split at h
    · cases h
    · cases h
      exact ⟨s₁, s₂, s₃, hheader, adds_of_decodeBlock hcontext, hschema, adds_of_decodeBlock hown,
        adds_of_decodeBlock hfields⟩

/-- What has been decoded for the blocks of an event is there at the end as it was left. -/
lemma Event.exists_kept_of_decode {limit : ℕ} {packet : Packet} {header : EventHeader}
    {schema : EventSchema} {s s' : DecodeState} (h : decode limit packet s = .ok (header, schema) s') :
    ∃ s₁ s₂ s₃, packet.stream.event? header.id = some schema ∧
      (Adds limit .streamEventHeader packet.stream.eventHeader s s₁ ∧ s'.scopes.arena.Keeps s s₁) ∧
      (Adds limit .streamEventContext packet.stream.eventContext s₁ s₂ ∧ s'.scopes.arena.Keeps s₁ s₂) ∧
      (Adds limit .eventContext schema.context s₂ s₃ ∧ s'.scopes.arena.Keeps s₂ s₃) ∧
      Adds limit .eventFields schema.fields s₃ s' ∧ s'.scopes.arena.Keeps s₃ s' := by
  obtain ⟨s₁, s₂, s₃, hheader, hcontext, hschema, hown, hfields⟩ := exists_steps_of_decode h
  have hfirst := EventHeader.adds_of_decode hheader
  have hkeeps₃ := hfields.keepsScopes
  have hkeeps₂ := hown.keepsScopes.trans hkeeps₃
  have hkeeps₁ := hcontext.keepsScopes.trans hkeeps₂
  exact ⟨s₁, s₂, s₃, hschema, ⟨hfirst, hkeeps₁.keeps s⟩, ⟨hcontext, hkeeps₂.keeps s₁⟩,
    ⟨hown, hkeeps₃.keeps s₂⟩, hfields, KeepsScopes.keeps (.refl s') s₃⟩

end CommonTrace
