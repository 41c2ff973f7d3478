import CommonTrace.Packet.Events
import CommonTrace.Proofs.Field.Growth

/-!
# A packet comes to an end

Every event that a `PacketReader` decodes takes at least one bit of the content, and none is read
beyond it.  So the number of results that a reader can still hand out is bounded by the bits that
are left, by `PacketReader.stepsLeft`, and `PacketReader.toList` lists all of them: it is unrolled
one result at a time by `PacketReader.toList_eq`.
-/

namespace CommonTrace

open DecodeM

theorem EventHeader.decode_advances (limit : Nat) (t : Option FieldType) :
    (EventHeader.decode limit t).Leads DecodeState.Advances := by
  cases t with
  | none => exact .pure _
  | some t =>
    exact (t.decodeBlock_advances limit .streamEventHeader).bind fun _ =>
      Leads.get.bind fun _ => .pure _

theorem Event.decodeBlock_advances (limit : Nat) (block : StaticScope) (t : Option FieldType) :
    (Event.decodeBlock limit block t).Leads DecodeState.Advances := by
  cases t with
  | none => exact .pure _
  | some t => exact (t.decodeBlock_advances limit block).bind fun _ => .pure _

/-- An event that is decoded takes some bits. -/
theorem Event.decode_progress {limit : Nat} {packet : Packet} {s s' : DecodeState}
    {a : EventHeader × EventSchema} (h : Event.decode limit packet s = .ok a s') :
    s'.cursor.Follows s.cursor ∧ s'.cursor.position ≠ s.cursor.position := by
  unfold Event.decode at h
  obtain ⟨_, s₀, hget, h⟩ := ok_of_bind h
  cases hget
  obtain ⟨header, s₁, h₁, h⟩ := ok_of_bind h
  obtain ⟨_, s₂, h₂, h⟩ := ok_of_bind h
  cases hschema : packet.stream.event? header.id with
  | none => rw [hschema] at h; cases h
  | some schema =>
    rw [hschema] at h
    obtain ⟨_, s₃, h₃, h⟩ := ok_of_bind h
    obtain ⟨_, s₄, h₄, h⟩ := ok_of_bind h
    obtain ⟨s₅, s₆, hget, h⟩ := ok_of_bind h
    obtain ⟨rfl, rfl⟩ : s₄ = s₅ ∧ s₄ = s₆ := by
      cases hget
      exact ⟨rfl, rfl⟩
    split at h
    · cases h
    · rename_i hmoved
      obtain rfl : s₄ = s' := by
        cases h
        rfl
      have h₁₂ : s.Advances s₂ := DecodeState.Accumulates.trans
        ((EventHeader.decode_advances limit _).of_ok h₁)
        ((Event.decodeBlock_advances limit _ _).of_ok h₂)
      have h₃₄ : s₂.Advances s₄ := DecodeState.Accumulates.trans
        ((Event.decodeBlock_advances limit _ _).of_ok h₃)
        ((Event.decodeBlock_advances limit _ _).of_ok h₄)
      exact ⟨DecodeState.Accumulates.trans (R := DecodeState.Advances) h₁₂ h₃₄, hmoved⟩

namespace PacketReader

variable {metadata : Metadata} {limit : Nat} {r r' : PacketReader}

/-- An event that is handed out leaves less of the content than there was before. -/
theorem remaining_lt_of_decodeEvent {event : Event}
    (h : r.decodeEvent metadata limit = (.ok event, r')) :
    r'.phase = r.phase ∧ r'.cursor.remaining < r.cursor.remaining := by
  unfold decodeEvent at h
  dsimp only at h
  split at h
  · rename_i header schema s hdecode
    obtain ⟨hfollows, hmoved⟩ := Event.decode_progress hdecode
    cases h
    refine ⟨rfl, ?_⟩
    have hlimit : s.cursor.limit = r.cursor.limit := hfollows.limit
    have hposition : r.cursor.position ≤ s.cursor.position := hfollows.position
    have hne : s.cursor.position ≠ r.cursor.position := hmoved
    have hle := s.cursor.position_le
    simp only [Cursor.remaining]
    omega
  · cases h

/-- A reader of which an event could not be decoded has failed. -/
theorem phase_of_decodeEvent_error {error : DecodeError}
    (h : r.decodeEvent metadata limit = (.error error, r')) : r'.phase = .failed := by
  unfold decodeEvent at h
  dsimp only at h
  split at h
  · cases h
  · cases h
    rfl

theorem packet_decodeEvent (metadata : Metadata) (limit : Nat) (r : PacketReader) :
    (r.decodeEvent metadata limit).2.packet = r.packet := by
  unfold decodeEvent
  dsimp only
  split <;> rfl

theorem packet_next (metadata : Metadata) (limit : Nat) (r : PacketReader) :
    (r.next metadata limit).2.packet = r.packet := by
  unfold next
  split
  · rfl
  · rfl
  · split
    · rfl
    · exact packet_decodeEvent metadata limit r

theorem packet_of_next {result : Option (Except DecodeError Event)}
    (h : r.next metadata limit = (result, r')) : r'.packet = r.packet := by
  rw [← packet_next metadata limit r, h]

/-! ## The results that are left -/

/-- A bound for the number of results that a reader still hands out: the marker, one event for each
bit that is left, and an error. -/
def stepsLeft (r : PacketReader) : Nat :=
  match r.phase with
  | .marker => r.cursor.remaining + 2
  | .events => r.cursor.remaining + 1
  | .failed => 0

theorem stepsLeft_le (r : PacketReader) : r.stepsLeft ≤ r.cursor.remaining + 2 := by
  unfold stepsLeft
  split <;> omega

theorem stepsLeft_lt_of_next {result : Except DecodeError Event}
    (h : r.next metadata limit = (some result, r')) : r'.stepsLeft < r.stepsLeft := by
  unfold next at h
  cases hphase : r.phase with
  | marker =>
    simp only [hphase] at h
    cases h
    simp only [stepsLeft, hphase]
    omega
  | failed =>
    simp only [hphase] at h
    cases h
  | events =>
    simp only [hphase] at h
    split at h
    · cases h
    · simp only [Prod.mk.injEq, Option.some.injEq] at h
      obtain ⟨hresult, hr⟩ := h
      cases result with
      | ok event =>
        obtain ⟨hp, hlt⟩ := remaining_lt_of_decodeEvent (Prod.ext hresult hr)
        simp only [stepsLeft, hp, hphase]
        omega
      | error error =>
        have hp := phase_of_decodeEvent_error (Prod.ext hresult hr)
        simp only [stepsLeft, hp, hphase]
        omega

theorem take_succ (metadata : Metadata) (limit : Nat) (r : PacketReader) (count : Nat) :
    r.take metadata limit (count + 1) =
      match r.next metadata limit with
      | (some result, r) => result :: r.take metadata limit count
      | (none, _) => [] := rfl

/-- There are no more results than `stepsLeft`, so taking more of them makes no difference. -/
theorem take_eq_of_stepsLeft_le {m n : Nat} (hm : r.stepsLeft ≤ m) (hn : r.stepsLeft ≤ n) :
    r.take metadata limit m = r.take metadata limit n := by
  induction m generalizing r n with
  | zero =>
    cases n with
    | zero => rfl
    | succ n =>
      rw [take_succ]
      split
      · rename_i hnext
        have := stepsLeft_lt_of_next hnext
        omega
      · rfl
  | succ m ih =>
    cases n with
    | zero =>
      rw [take_succ]
      split
      · rename_i hnext
        have := stepsLeft_lt_of_next hnext
        omega
      · rfl
    | succ n =>
      rw [take_succ, take_succ]
      split
      · rename_i hnext
        have := stepsLeft_lt_of_next hnext
        exact congrArg _ (ih (by omega) (by omega))
      · rfl

/-- The list of all results is unrolled by handing out the first. -/
theorem toList_eq (metadata : Metadata) (limit : Nat) (r : PacketReader) :
    r.toList metadata limit =
      match r.next metadata limit with
      | (some result, r) => result :: r.toList metadata limit
      | (none, _) => [] := by
  unfold toList
  rw [take_succ]
  split
  · rename_i hnext
    have hlt := stepsLeft_lt_of_next hnext
    have hle := stepsLeft_le r
    rw [take_eq_of_stepsLeft_le (by omega) (stepsLeft_le _)]
  · rfl

/-- There is nothing behind an error. -/
theorem toList_of_next_error {error : DecodeError}
    (h : r.next metadata limit = (some (.error error), r')) : r'.toList metadata limit = [] := by
  have hphase : r'.phase = .failed := by
    unfold next at h
    split at h
    · cases h
    · cases h
    · split at h
      · cases h
      · simp only [Prod.mk.injEq, Option.some.injEq] at h
        exact phase_of_decodeEvent_error (Prod.ext h.1 h.2)
  rw [toList_eq, next, hphase]

end PacketReader

end CommonTrace
