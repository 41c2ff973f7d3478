import CommonTrace.Proofs.Packet.Progress
import Mathlib.Data.Nat.Notation
import Mathlib.Tactic.Lemma

/-!
# Call after call

A reader of a packet may be asked for its next result as often as one likes.  What the calls give is
the list of the results that are left, and nothing from its end on (`result?_eq_getElem?_toList`).

That list has a fixed form: a marker if events were lost, then the events that can be decoded, then
an error if there is one that cannot.  `PacketReader.Course` says so, and where the reader stands
before and after each event; every reader that starts a packet has one (`PacketReader.exists_course`).
-/

namespace CommonTrace

/-- The marker of the events that were lost before a packet, if there are any. -/
def Packet.markers (metadata : Metadata) (p : Packet) : List Event :=
  if 0 < p.eventsLost then [Event.marker metadata p] else []

namespace PacketReader

/-- The reader after a number of calls. -/
def after (metadata : Metadata) (limit : ℕ) (r : PacketReader) : ℕ → PacketReader
  | 0 => r
  | n + 1 => (r.next metadata limit).2.after metadata limit n

/-- What a call gives that comes after a number of others, if it gives anything. -/
def result? (metadata : Metadata) (limit : ℕ) (r : PacketReader) (n : ℕ) :
    Option (Except DecodeError Event) :=
  ((r.after metadata limit n).next metadata limit).1

variable {metadata : Metadata} {limit : ℕ} {r r' : PacketReader}

/-! ## The calls in their order -/

/-- A reader that has come to its end stays as it is. -/
lemma next_of_eq_none (h : (r.next metadata limit).1 = none) : r.next metadata limit = (none, r) := by
  unfold next at h ⊢
  split at h
  · cases h
  · rfl
  · split at h
    · rename_i hremaining
      rw [if_pos hremaining]
    · cases h

lemma after_of_eq_none (h : (r.next metadata limit).1 = none) (n : ℕ) :
    r.after metadata limit n = r := by
  induction n with
  | zero => rfl
  | succ n ih => rw [after, next_of_eq_none h, ih]

/-- **What the calls give** is the list of the results that are left, and nothing behind it. -/
theorem result?_eq_getElem?_toList (metadata : Metadata) (limit : ℕ) (r : PacketReader) (n : ℕ) :
    r.result? metadata limit n = (r.toList metadata limit)[n]? := by
  induction n generalizing r with
  | zero =>
    rw [toList_eq, result?, after]
    split
    · rename_i hnext
      simp [hnext]
    · rename_i hnext
      simp [hnext]
  | succ n ih =>
    rw [toList_eq]
    split
    · rename_i result r' hnext
      have hcall : r.result? metadata limit (n + 1) = r'.result? metadata limit n := by
        rw [result?, after, hnext, result?]
      rw [hcall, ih, List.getElem?_cons_succ]
    · rename_i r' hnext
      have hend : (r.next metadata limit).1 = none := by rw [hnext]
      rw [result?, after_of_eq_none hend, hend, List.getElem?_nil]

/-- The calls that are still to come after a call. -/
lemma after_succ (metadata : Metadata) (limit : ℕ) (r : PacketReader) (n : ℕ) :
    r.after metadata limit (n + 1) = ((r.after metadata limit n).next metadata limit).2 := by
  induction n generalizing r with
  | zero => rfl
  | succ n ih =>
    rw [after, ih]
    rfl

lemma packet_after (metadata : Metadata) (limit : ℕ) (r : PacketReader) (n : ℕ) :
    (r.after metadata limit n).packet = r.packet := by
  induction n generalizing r with
  | zero => rfl
  | succ n ih => rw [after, ih, packet_next]

/-! ## One call -/

lemma next_of_marker (h : r.phase = .marker) :
    r.next metadata limit =
      (some (.ok (Event.marker metadata r.packet)), { r with phase := .events }) := by
  rw [next, h]

lemma lost_marker (metadata : Metadata) (packet : Packet) :
    (Event.marker metadata packet).lost ≠ none := by
  simp [Event.marker]

/-- An event that is decoded is no marker.  It ends behind where it started, in the content. -/
lemma moves_of_decodeEvent {event : Event} (h : r.decodeEvent metadata limit = (.ok event, r')) :
    event.lost = none ∧ r.cursor.position < r'.cursor.position ∧
      r'.cursor.limit = r.cursor.limit := by
  unfold decodeEvent at h
  dsimp only at h
  split at h
  · rename_i header schema s hdecode
    obtain ⟨hfollows, hmoved⟩ := Event.decode_progress hdecode
    cases h
    have hle : r.cursor.position ≤ s.cursor.position := hfollows.position
    have hne : s.cursor.position ≠ r.cursor.position := hmoved
    have hlt : r.cursor.position < s.cursor.position := by omega
    exact ⟨rfl, hlt, hfollows.limit⟩
  · cases h

/-- What a reader that decodes events gives with a call: nothing at the end of the content, or what
becomes of the next event. -/
lemma next_of_events (h : r.phase = .events) :
    r.next metadata limit =
      if r.cursor.remaining = 0 then (none, r)
      else (some (r.decodeEvent metadata limit).1, (r.decodeEvent metadata limit).2) := by
  rw [next, h]

/-- **What a call gives** is the marker of the packet, or has been decoded. -/
lemma marker_or_decodeEvent_of_next {event : Event}
    (h : (r.next metadata limit).1 = some (.ok event)) :
    (event = Event.marker metadata r.packet ∧ (r.next metadata limit).2 = { r with phase := .events }) ∨
      r.decodeEvent metadata limit = (.ok event, (r.next metadata limit).2) := by
  cases hphase : r.phase with
  | marker =>
    rw [next_of_marker hphase] at h ⊢
    simp only [Option.some.injEq, Except.ok.injEq] at h
    exact .inl ⟨h.symm, rfl⟩
  | events =>
    rw [next_of_events hphase] at h ⊢
    split at h
    · cases h
    · rename_i hremaining
      rw [if_neg hremaining]
      simp only [Option.some.injEq] at h
      exact .inr (Prod.ext h rfl)
  | failed =>
    rw [next, hphase] at h
    cases h

/-- Whatever a reader gives is the marker of its packet, or has been decoded in it. -/
lemma marker_or_decodeEvent_of_mem_toList {event : Event} (hmem : .ok event ∈ r.toList metadata limit) :
    event = Event.marker metadata r.packet ∨
      ∃ r₀ r₁ : PacketReader, r₀.packet = r.packet ∧ r₀.decodeEvent metadata limit = (.ok event, r₁) := by
  obtain ⟨n, hn⟩ := List.mem_iff_getElem?.mp hmem
  rw [← result?_eq_getElem?_toList, result?] at hn
  rcases marker_or_decodeEvent_of_next hn with ⟨hmarker, -⟩ | hdecode
  · rw [packet_after] at hmarker
    exact .inl hmarker
  · exact .inr ⟨_, _, packet_after metadata limit r n, hdecode⟩

/-- A call that gives an event moves the reader over it, unless it is a marker. -/
lemma moves_of_next {event : Event} (h : (r.next metadata limit).1 = some (.ok event)) :
    (r.next metadata limit).2.cursor.limit = r.cursor.limit ∧
      (event.lost = none → r.cursor.position < (r.next metadata limit).2.cursor.position) := by
  rcases marker_or_decodeEvent_of_next h with ⟨rfl, hnext⟩ | hdecode
  · rw [hnext]
    exact ⟨rfl, fun hlost => absurd hlost (lost_marker _ _)⟩
  · obtain ⟨-, hposition, hlimit⟩ := moves_of_decodeEvent hdecode
    exact ⟨hlimit, fun _ => hposition⟩

/-- A reader that gives an event with a call has given events with all calls before, so it still
reads the same content. -/
lemma limit_after {n : ℕ} {event : Event} (h : r.result? metadata limit n = some (.ok event)) :
    (r.after metadata limit n).cursor.limit = r.cursor.limit := by
  induction n generalizing r with
  | zero => rfl
  | succ n ih =>
    have hrest : (r.next metadata limit).2.result? metadata limit n = some (.ok event) := h
    rw [after, ih hrest]
    cases hnext : r.next metadata limit with
    | mk result r' =>
      rw [hnext] at hrest
      cases result with
      | none =>
        have hend : (r.next metadata limit).1 = none := by rw [hnext]
        have hsame := next_of_eq_none hend
        rw [hnext, Prod.mk.injEq] at hsame
        rw [hsame.2]
      | some result =>
        cases result with
        | ok event' =>
          have hevent : (r.next metadata limit).1 = some (.ok event') := by rw [hnext]
          obtain ⟨hlimit, -⟩ := moves_of_next hevent
          rwa [hnext] at hlimit
        | error error =>
          -- There is nothing behind an error.
          rw [result?_eq_getElem?_toList, toList_of_next_error hnext] at hrest
          cases hrest

/-! ## All calls -/

/-- A reader among the events gives no more of them than it has bits left, and at most one error
behind them. -/
lemma exists_toList_of_events (metadata : Metadata) (limit : ℕ) (h : r.phase = .events) :
    ∃ (events : List Event) (faults : List DecodeError),
      r.toList metadata limit = events.map .ok ++ faults.map .error ∧
        (∀ event ∈ events, event.lost = none) ∧
        events.length ≤ r.cursor.remaining ∧ faults.length ≤ 1 := by
  -- By induction on the bits that are left, of which every event takes some.
  induction hsize : r.cursor.remaining using Nat.strongRecOn generalizing r with
  | ind size ih =>
    rw [toList_eq, next_of_events h]
    by_cases hremaining : r.cursor.remaining = 0
    · rw [if_pos hremaining]
      exact ⟨[], [], rfl, by simp, by simp, by simp⟩
    · rw [if_neg hremaining]
      cases hdecode : r.decodeEvent metadata limit with
      | mk result r' =>
        cases result with
        | ok event =>
          obtain ⟨hphase, hlt⟩ := remaining_lt_of_decodeEvent hdecode
          obtain ⟨hlost, -, -⟩ := moves_of_decodeEvent hdecode
          rw [h] at hphase
          obtain ⟨events, faults, hrest, hevents, hlength, hfaults⟩ :=
            ih _ (by omega) hphase rfl
          refine ⟨event :: events, faults, by simp [hrest], ?_, ?_, hfaults⟩
          · simpa using ⟨hlost, hevents⟩
          · simp only [List.length_cons]
            omega
        | error error =>
          have hnext : r.next metadata limit = (some (.error error), r') := by
            rw [next_of_events h, if_neg hremaining, hdecode]
          refine ⟨[], [error], ?_, by simp, by simp, by simp⟩
          simp [toList_of_next_error hnext]

/-- **The course of a reader**: what its calls give, and how far each of them moves it. -/
structure Course (metadata : Metadata) (limit : ℕ) (r : PacketReader)
    (markers events : List Event) (faults : List DecodeError) : Prop where
  /-- The calls give the markers, then the events, then the errors, then nothing for ever. -/
  result? : ∀ n,
    r.result? metadata limit n = ((markers ++ events).map .ok ++ faults.map .error)[n]?
  /-- The markers are those of lost events. -/
  lost_of_markers : ∀ marker ∈ markers, marker.lost ≠ none
  /-- The events have been decoded. -/
  lost_of_events : ∀ event ∈ events, event.lost = none
  /-- There is at most one marker. -/
  length_markers : markers.length ≤ 1
  /-- There are no more events than bits between the head of the packet and the end of its content. -/
  length_events : events.length ≤ r.packet.contentSize - r.packet.eventsOffset
  /-- There is at most one error. -/
  length_faults : faults.length ≤ 1
  /-- An event ends behind the bit at which it started, and not behind the content. -/
  moves : ∀ n event, r.result? metadata limit n = some (.ok event) → event.lost = none →
    (r.after metadata limit n).cursor.position < (r.after metadata limit (n + 1)).cursor.position ∧
      (r.after metadata limit (n + 1)).cursor.position ≤ r.packet.contentSize

/-- All results that are left are those of the course. -/
lemma Course.toList_eq {markers events : List Event} {faults : List DecodeError}
    (h : r.Course metadata limit markers events faults) :
    r.toList metadata limit = (markers ++ events).map .ok ++ faults.map .error := by
  apply List.ext_getElem?
  intro n
  rw [← result?_eq_getElem?_toList, h.result?]

/-- The reader of a packet stands behind the head, and its limit is not behind the content. -/
lemma cursor_of_ofPacket {file : ByteArray} {packet : Packet} (h : ofPacket file packet = .ok r) :
    r.packet = packet ∧ r.cursor.position = packet.eventsOffset ∧
      r.cursor.limit ≤ packet.contentSize ∧
      r.phase = if 0 < packet.eventsLost then .marker else .events := by
  unfold ofPacket at h
  cases hseek : (Cursor.ofPrefix (packet.bytes file) packet.contentSize).seek packet.eventsOffset with
  | error error =>
    rw [hseek] at h
    cases h
  | ok cursor =>
    rw [hseek] at h
    cases h
    unfold Cursor.seek at hseek
    split at hseek
    · cases hseek
      exact ⟨rfl, rfl, Nat.min_le_left _ _, rfl⟩
    · cases hseek

/-- **Every reader of a packet has a course**, which starts with a marker if and only if events were
lost. -/
theorem exists_course {file : ByteArray} {packet : Packet} (metadata : Metadata) (limit : ℕ)
    (h : ofPacket file packet = .ok r) :
    ∃ events faults, r.Course metadata limit (packet.markers metadata) events faults := by
  obtain ⟨rfl, hposition, hlimit, hphase⟩ := cursor_of_ofPacket h
  -- Behind the marker, if there is one, the reader decodes events.
  obtain ⟨events, faults, hlist, hevents, hlength, hfaults⟩ :=
    exists_toList_of_events (r := { r with phase := .events }) metadata limit rfl
  have hremaining : r.cursor.remaining ≤ r.packet.contentSize - r.packet.eventsOffset := by
    unfold Cursor.remaining
    omega
  refine ⟨events, faults, ?_, ?_, hevents, ?_, Nat.le_trans hlength hremaining, hfaults, ?_⟩
  · intro n
    rw [result?_eq_getElem?_toList]
    by_cases hlost : 0 < r.packet.eventsLost
    · rw [if_pos hlost] at hphase
      rw [toList_eq, next_of_marker hphase]
      simp [hlist, Packet.markers, hlost]
    · rw [if_neg hlost] at hphase
      have hsame : { r with phase := .events } = r := by rw [← hphase]
      rw [← hsame, hlist]
      simp [Packet.markers, hlost]
  · intro marker hmarker
    by_cases hlost : 0 < r.packet.eventsLost
    · obtain rfl : marker = Event.marker metadata r.packet := by
        simpa [Packet.markers, hlost] using hmarker
      exact lost_marker _ _
    · simp [Packet.markers, hlost] at hmarker
  · unfold Packet.markers
    split <;> simp
  · intro n event hresult hlost
    obtain ⟨hsame, hmoved⟩ := moves_of_next hresult
    have hcontent := (r.after metadata limit (n + 1)).cursor.position_le
    rw [after_succ] at hcontent ⊢
    rw [hsame, limit_after hresult] at hcontent
    exact ⟨hmoved hlost, by omega⟩

end PacketReader

end CommonTrace
