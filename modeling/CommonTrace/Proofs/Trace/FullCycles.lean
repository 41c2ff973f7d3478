import CommonTrace.Proofs.Trace.PacketEnd

/-!
# Full cycles from few bits

An event header records the low bits of a clock.  `extendCycles` completes them by the cycles of the event
before, and each event then passes its own cycles on, so one wrong completion would falsify all time stamps
behind it in the packet.

A completion is right if the clock has not advanced by more than the recorded bits can count
(`Recording.GoesOn.extendCycles_eq`): there is only one number with these low bits in reach.  Events may record
different numbers of bits.  By induction a whole run of recordings is completed rightly, from the start of
the run on (`trackCycles_of_recorded`), and a reader of a packet completes what its headers record as such a
run from the start of the packet (`PacketReader.cycles_of_events`).
-/

namespace CommonTrace

/-! ## Runs of recordings -/

/-- The cycles that are obtained one after the other from recorded bits and their numbers. -/
def trackCycles (last : ℕ) : List (ℕ × ℕ) → List ℕ
  | [] => []
  | (raw, width) :: rest =>
    extendCycles last raw width :: trackCycles (extendCycles last raw width) rest

/-- A number of cycles of which some low bits have been recorded. -/
structure Recording where
  /-- The cycles. -/
  cycles : ℕ
  /-- What has been recorded.  Its bits above the low ones do not matter. -/
  raw : ℕ
  /-- The number of bits that have been recorded. -/
  width : ℕ

namespace Recording

/-- The clock has gone on from `last` to the recorded cycles, by less than the recorded bits can count.  If
these are all bits of the clock, it may have gone on as far as it likes. -/
structure GoesOn (last : ℕ) (x : Recording) : Prop where
  le : last ≤ x.cycles
  lt : x.cycles < 2 ^ 64
  close : x.width < 64 → x.cycles - last < 2 ^ x.width
  low : x.width < 64 → x.raw % 2 ^ x.width = x.cycles % 2 ^ x.width
  whole : 64 ≤ x.width → x.raw = x.cycles

/-- What has been recorded, and the number of its bits. -/
def shown (x : Recording) : ℕ × ℕ :=
  (x.raw, x.width)

/-- A number of which the remainder is known and that is less than one block behind another one lies in the
block of this one or in the next. -/
lemma eq_of_near {block last n : ℕ} (hle : last ≤ n) (hnear : n - last < block) :
    n = last / block * block + n % block ∨
      n = last / block * block + n % block + block ∧ last / block * block + n % block < last := by
  have hn := Nat.div_add_mod' n block
  have hlast := Nat.div_add_mod' last block
  have hlt := Nat.mod_lt last (by omega : 0 < block)
  have hquotient : n / block = last / block ∨ n / block = last / block + 1 := by
    have hlow := Nat.div_le_div_right (c := block) hle
    have hhigh : n / block ≤ (last + block) / block := Nat.div_le_div_right (by omega)
    rw [Nat.add_div_right _ (by omega)] at hhigh
    omega
  rcases hquotient with hsame | hnext
  · rw [hsame] at hn
    exact .inl hn.symm
  · rw [hnext, Nat.succ_mul] at hn
    exact .inr ⟨by omega, by omega⟩

/-- **One completion**: the recorded cycles are found again. -/
lemma GoesOn.extendCycles_eq {last : ℕ} {x : Recording} (h : x.GoesOn last) :
    extendCycles last x.raw x.width = x.cycles := by
  unfold extendCycles
  split
  · rename_i hwhole
    exact h.whole hwhole
  · rename_i hwidth
    rw [twoPow_eq, twoPow_eq, h.low (by omega)]
    have hle := h.le
    rcases eq_of_near h.le (h.close (by omega)) with hsame | ⟨hnext, hbelow⟩
    · rw [← hsame, if_neg (by omega)]
    · dsimp only
      rw [if_pos hbelow, ← hnext, Nat.mod_eq_of_lt h.lt]

end Recording

/-- A run of recordings, in which the clock goes on from one to the next. -/
inductive Recorded : ℕ → List Recording → Prop where
  | nil (last : ℕ) : Recorded last []
  | cons {last : ℕ} {x : Recording} {rest : List Recording} (first : x.GoesOn last)
      (others : Recorded x.cycles rest) : Recorded last (x :: rest)

/-- **A run of completions**, however often the recorded counters have wrapped around. -/
lemma trackCycles_of_recorded {start : ℕ} {run : List Recording} (h : Recorded start run) :
    trackCycles start (run.map Recording.shown) = run.map Recording.cycles := by
  induction h with
  | nil last => rfl
  | cons first others ih =>
    rw [List.map_cons, List.map_cons, Recording.shown, trackCycles, first.extendCycles_eq, ih]

/-! ## The events of a packet -/

/-- The bits of a clock that the header of an event records, and their number. -/
def Event.recordedBits? (event : Event) : Option (ℕ × ℕ) :=
  event.recorded.time.map fun (n, _) => (n.word, n.width)

/-- The events among some results, without markers. -/
def ordinaryEvents {ε : Type} (results : List (Except ε Event)) : List Event :=
  (results.filterMap Except.toOption).filter fun event => event.lost.isNone

section Ordinary

variable {ε : Type} {event : Event} {rest : List (Except ε Event)}

lemma ordinaryEvents_event (h : event.lost = none) :
    ordinaryEvents (.ok event :: rest) = event :: ordinaryEvents rest := by
  simp [ordinaryEvents, Except.toOption, h]

lemma ordinaryEvents_marker (h : event.lost ≠ none) :
    ordinaryEvents (.ok event :: rest) = ordinaryEvents rest := by
  simp [ordinaryEvents, Except.toOption, h]

lemma ordinaryEvents_error (e : ε) : ordinaryEvents (.error e :: rest) = ordinaryEvents rest := rfl

lemma ordinaryEvents_mapError {ε' : Type} (f : ε → ε') (results : List (Except ε Event)) :
    ordinaryEvents (results.map (·.mapError f)) = ordinaryEvents results := by
  have hsame : Except.toOption ∘ (Except.mapError f : Except ε Event → Except ε' Event) =
      Except.toOption := by
    funext result
    cases result <;> rfl
  rw [ordinaryEvents, List.filterMap_map, hsame, ordinaryEvents]

end Ordinary

namespace PacketReader

variable {metadata : Metadata} {limit : ℕ} {r r' : PacketReader}

/-- An event that is decoded takes its cycles from those before it and what its header says, and hands them
on. -/
lemma cycles_of_decodeEvent {event : Event} (h : r.decodeEvent metadata limit = (.ok event, r')) :
    event.cycles = Event.cyclesOf event.recorded r.cycles ∧ r'.cycles = event.cycles := by
  unfold decodeEvent at h
  dsimp only at h
  split at h
  · rename_i header schema s hdecode
    have hheader := Event.ofArena_of_decode hdecode rfl
    cases h
    simp only [Event.ofDecoded, Event.recorded, hheader, and_self]
  · cases h

/-- **The cycles of the events** are the completions of what their headers record. -/
lemma cycles_of_events (h : r.phase = .events) {bits : List (ℕ × ℕ)}
    (hshown : (ordinaryEvents (r.toList metadata limit)).map Event.recordedBits? = bits.map some) :
    (ordinaryEvents (r.toList metadata limit)).map Event.cycles = trackCycles r.cycles bits := by
  -- By induction on the bits that are left, of which every event takes some.
  induction hsize : r.cursor.remaining using Nat.strongRecOn generalizing r bits with
  | ind size ih =>
    by_cases hremaining : r.cursor.remaining = 0
    · have hlist : r.toList metadata limit = [] := by
        rw [toList_eq, next_of_events h, if_pos hremaining]
      rw [hlist] at hshown ⊢
      obtain rfl := List.map_eq_nil_iff.mp hshown.symm
      rfl
    · cases hdecode : r.decodeEvent metadata limit with
      | mk result r' =>
        have hnext : r.next metadata limit = (some result, r') := by
          rw [next_of_events h, if_neg hremaining, hdecode]
        cases result with
        | ok event =>
          obtain ⟨hphase, hlt⟩ := remaining_lt_of_decodeEvent hdecode
          obtain ⟨hlost, -, -⟩ := moves_of_decodeEvent hdecode
          obtain ⟨hcycles, hpassed⟩ := cycles_of_decodeEvent hdecode
          have hlist : r.toList metadata limit = .ok event :: r'.toList metadata limit := by
            rw [toList_eq, hnext]
          rw [hlist, ordinaryEvents_event hlost] at hshown ⊢
          cases bits with
          | nil => cases hshown
          | cons first others =>
            rw [List.map_cons, List.map_cons, List.cons.injEq] at hshown
            obtain ⟨⟨n, clock⟩, htime, rfl⟩ := Option.map_eq_some_iff.mp hshown.1
            have hextended : event.cycles = extendCycles r.cycles n.word n.width := by
              rw [hcycles, Event.cyclesOf, htime]
            rw [List.map_cons, ih _ (by omega) (hphase.trans h) hshown.2 rfl, hpassed, hextended,
              trackCycles]
        | error error =>
          have hlist : r.toList metadata limit = [.error error] := by
            rw [toList_eq, hnext]
            exact congrArg _ (toList_of_next_error hnext)
          rw [hlist] at hshown ⊢
          obtain rfl := List.map_eq_nil_iff.mp hshown.symm
          rfl

/-- A reader goes on from the start of the packet. -/
lemma cycles_eq_start {file : ByteArray} {packet : Packet} (h : ofPacket file packet = .ok r) :
    r.cycles = (packet.start.map Instant.cycles).getD 0 := by
  unfold ofPacket at h
  cases hseek : (Cursor.ofPrefix (packet.bytes file) packet.contentSize).seek packet.eventsOffset with
  | error error =>
    rw [hseek] at h
    cases h
  | ok cursor =>
    rw [hseek] at h
    cases h
    rfl

/-- A marker before the events has no part in this. -/
lemma cycles_of_ofPacket {file : ByteArray} {packet : Packet} (h : ofPacket file packet = .ok r)
    {bits : List (ℕ × ℕ)}
    (hshown : (ordinaryEvents (r.toList metadata limit)).map Event.recordedBits? = bits.map some) :
    (ordinaryEvents (r.toList metadata limit)).map Event.cycles =
      trackCycles ((packet.start.map Instant.cycles).getD 0) bits := by
  obtain ⟨-, -, -, hphase⟩ := cursor_of_ofPacket h
  rw [← cycles_eq_start h]
  split at hphase
  · have hlist : r.toList metadata limit = .ok (Event.marker metadata r.packet) ::
        { r with phase := .events }.toList metadata limit := by
      rw [toList_eq, next_of_marker hphase]
    rw [hlist, ordinaryEvents_marker (lost_marker _ _)] at hshown ⊢
    exact cycles_of_events rfl hshown
  · exact cycles_of_events hphase hshown

end PacketReader

/-! ## The events of a trace -/

/-- **Cycles are recovered in full.**  A run of recordings of any widths in any order is completed to the
cycles that have been recorded, from where the run starts.  So if the headers of the events of a packet
record such a run from the beginning of the packet, the events have the recorded cycles. -/
theorem cycles_eq_of_recorded :
    (∀ (start : ℕ) (run : List Recording), Recorded start run →
      trackCycles start (run.map Recording.shown) = run.map Recording.cycles) ∧
    ∀ (trace : Trace), trace.Located → ∀ file ∈ trace.files, ∀ p ∈ file.located,
      ∀ (start : ℕ) (run : List Recording), p.contextNumber? "timestamp_begin" = some start →
        Recorded start run →
        (ordinaryEvents (trace.entryEvents file p.index (.ok p))).map Event.recordedBits? =
          (run.map Recording.shown).map some →
        (ordinaryEvents (trace.entryEvents file p.index (.ok p))).map Event.cycles =
          run.map Recording.cycles := by
  refine ⟨fun start run => trackCycles_of_recorded, ?_⟩
  intro trace hlocated file hfile p hp start run hstart hrun hshown
  have hindexed : p ∈ (PacketIndex.ofFile trace.metadata trace.options file.data).packets := by
    rw [← hlocated file hfile]
    exact hp
  obtain ⟨head, hhead⟩ := PacketIndex.exists_head_of_mem hindexed
  have hcycles : (p.start.map Instant.cycles).getD 0 = start := by
    rw [hhead.start_eq, PacketHead.instant?, ← hhead.contextNumber?_eq, hstart]
    rfl
  unfold Trace.entryEvents at hshown ⊢
  cases hreader : PacketReader.ofPacket file.data p with
  | error error =>
    simp only [hreader] at hshown ⊢
    rw [ordinaryEvents_error] at hshown ⊢
    obtain rfl := List.map_eq_nil_iff.mp (List.map_eq_nil_iff.mp hshown.symm)
    rfl
  | ok r =>
    simp only [hreader] at hshown ⊢
    rw [Trace.packetEvents, ordinaryEvents_mapError] at hshown ⊢
    rw [PacketReader.cycles_of_ofPacket hreader hshown, hcycles, trackCycles_of_recorded hrun]

section Example

/-- An event header that records eight bits of a clock, or sixty-four after the id 31. -/
def FieldType.compactOrExtended : FieldType :=
  .struct 8 [
    ("id", .enum {
      container := .plain 8 false .little
      ranges := [⟨"compact", 0, 30⟩, ⟨"extended", 31, 31⟩] }),
    ("v", .variant (some ⟨.relative 0, "id", []⟩) [
      ("compact", .bytes ["timestamp"]),
      ("extended", .struct 8 [
        ("id", .integer (.plain 8 false .little)),
        ("timestamp", .integer (.plain 64 false .little))])])]

/-- Metadata with a packet context that consists of the beginning, and such headers before every event. -/
def Metadata.compactOrExtended : Metadata :=
  { Metadata.bytewise [] with
    streams := Dictionary.empty.insert 0 { StreamSchema.empty with
      packetContext := some (.bytes ["timestamp_begin"])
      eventHeader := some .compactOrExtended
      anonymousEvent := some (.named "tick") } }

/-- A packet that begins at 250, with three compact headers and an extended one before the last of them.
The eight bits wrap around twice. -/
def Trace.compactOrExtended : Trace :=
  let data : ByteArray := ⟨#[250, 1, 253, 1, 2, 31, 1, 232, 3, 0, 0, 0, 0, 0, 0, 1, 4]⟩
  { metadata := .compactOrExtended
    files := [{ name := "ticks", data, packets := PacketIndex.ofFile .compactOrExtended {} data }]
    options := {} }

/-- What the headers record. -/
def compactOrExtendedRun : List Recording :=
  [⟨253, 253, 8⟩, ⟨258, 2, 8⟩, ⟨1000, 1000, 64⟩, ⟨1028, 4, 8⟩]

lemma located_compactOrExtended : Trace.compactOrExtended.Located := by
  intro file hfile
  cases List.mem_singleton.mp hfile
  rfl

lemma recorded_compactOrExtended : Recorded 250 compactOrExtendedRun :=
  .cons ⟨by decide, by decide, by decide, by decide, by decide⟩ <|
  .cons ⟨by decide, by decide, by decide, by decide, by decide⟩ <|
  .cons ⟨by decide, by decide, by decide, by decide, by decide⟩ <|
  .cons ⟨by decide, by decide, by decide, by decide, by decide⟩ (.nil _)

/-- Compact and extended headers are completed alike. -/
theorem cycles_eq_of_recorded_compactOrExtended :
    trackCycles 250 [(253, 8), (2, 8), (1000, 64), (4, 8)] = [253, 258, 1000, 1028] ∧
      ∃ file ∈ Trace.compactOrExtended.files, ∃ p ∈ file.located,
        (ordinaryEvents (Trace.compactOrExtended.entryEvents file p.index (.ok p))).map Event.cycles =
          [253, 258, 1000, 1028] := by
  have hfound : ∃ file ∈ Trace.compactOrExtended.files, ∃ p ∈ file.located,
      p.contextNumber? "timestamp_begin" = some 250 ∧
        (ordinaryEvents (Trace.compactOrExtended.entryEvents file p.index (.ok p))).map
          Event.recordedBits? = (compactOrExtendedRun.map Recording.shown).map some := by
    decide +kernel
  obtain ⟨file, hfile, p, hp, hstart, hshown⟩ := hfound
  obtain ⟨htracked, hcycles⟩ := cycles_eq_of_recorded
  exact ⟨htracked 250 compactOrExtendedRun recorded_compactOrExtended, file, hfile, p, hp,
    hcycles _ located_compactOrExtended file hfile p hp 250 _ hstart recorded_compactOrExtended hshown⟩

end Example

end CommonTrace
