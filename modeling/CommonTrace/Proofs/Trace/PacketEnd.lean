import CommonTrace.Proofs.Packet.TimeStamps
import CommonTrace.Proofs.Schema.Clock
import CommonTrace.Proofs.Trace.Errors

/-!
# Where a packet ends

Time stamps follow a rule: a field counts the clock that its type gives, or else that of the start of its
packet, or else the only clock of the trace, and without a clock cycles are nanoseconds
(`Packet.ruled`).  The time stamps of events follow it.

The end of a packet does not: it is converted on the clock of the start, also where its own field gives
another.  This matters because seeking passes over packets that end too early.  `Packet.EndsAt` says what
follows.  As long as the end is not earlier than it is by the rule, no event of the same clock up to it is
missed; otherwise an event at the very end comes behind it, and seeking to that event passes over its
packet.
-/

namespace CommonTrace

namespace Packet

/-- The clock that the start of a packet counts. -/
def startClock? (p : Packet) : Option String :=
  (p.contextField? "timestamp_begin").bind fun f => f.type.clock?

/-- The nanoseconds at a number of cycles by the rule for time stamps, where `own` is the clock that a
field gives. -/
def ruled (metadata : Metadata) (p : Packet) (own : Option String) (cycles : ℕ) : ℕ :=
  metadata.toNanoseconds (own.or p.startClock?) cycles

/-- Fields that come down to the same clock are converted alike. -/
lemma ruled_congr {metadata : Metadata} {p : Packet} {own other : Option String} {cycles : ℕ}
    (h : own.or p.startClock? = other.or p.startClock?) :
    p.ruled metadata own cycles = p.ruled metadata other cycles := by
  rw [ruled, h, ruled]

/-- An event of a packet that counts the same clock as the end of the packet, the field `stop`. -/
structure SharesClock (trace : Trace) (file : StreamFile) (p : Packet) (stop : Field) (event : Event) :
    Prop where
  mem : .ok event ∈ trace.entryEvents file p.index (.ok p)
  lost : event.lost = none
  clock : event.ownClock?.or p.startClock? = stop.type.clock?.or p.startClock?

/-- Whoever seeks to an event of a packet, or to an earlier time, gets the event: its packet is not passed
over, and in whatever state the reader was, the event becomes the current one. -/
def Keeps (trace : Trace) (file : StreamFile) (p : Packet) (event : Event) : Prop :=
  ∀ nanoseconds ≤ event.timestamp, file.packetAt nanoseconds ≤ p.index ∧
    ∀ r, TraceReader.Reachable trace r →
      ∃ count, ((r.seek nanoseconds).movedOn count).current = some event

/-- **The end of a packet by the rule**, where `stop` is its field `timestamp_end`. -/
structure EndsByRule (trace : Trace) (file : StreamFile) (p : Packet) (stop : Field) : Prop where
  stop_eq : p.stop = stop.unsigned?.map fun cycles =>
    { cycles, nanoseconds := p.ruled trace.metadata stop.type.clock? cycles }
  covers : ∀ instant, p.stop = some instant → ∀ event, p.SharesClock trace file stop event →
    event.cycles ≤ instant.cycles →
      event.timestamp ≤ instant.nanoseconds ∧ p.Keeps trace file event

/-- **What the end of a packet is worth**, where `stop` is its field `timestamp_end`. -/
structure EndsAt (trace : Trace) (file : StreamFile) (p : Packet) (stop : Field) : Prop where
  /-- The end is converted on the clock of the start, whatever clock the field gives. -/
  stop_eq : p.stop = stop.unsigned?.map fun cycles =>
    { cycles, nanoseconds := p.ruled trace.metadata none cycles }
  /-- The events of the packet follow the rule. -/
  timestamp_eq : ∀ event, .ok event ∈ trace.entryEvents file p.index (.ok p) → event.lost = none →
    event.timestamp = p.ruled trace.metadata event.ownClock? event.cycles
  /-- The end follows the rule if and only if both clocks agree on it. -/
  endsByRule_iff : p.EndsByRule trace file stop ↔ ∀ instant, p.stop = some instant →
    p.ruled trace.metadata stop.type.clock? instant.cycles = instant.nanoseconds
  /-- If the end is not earlier than by the rule, no event of its clock up to it is missed. -/
  covers : ∀ instant, p.stop = some instant →
    p.ruled trace.metadata stop.type.clock? instant.cycles ≤ instant.nanoseconds →
    ∀ event, p.SharesClock trace file stop event → event.cycles ≤ instant.cycles →
      event.timestamp ≤ instant.nanoseconds ∧ p.Keeps trace file event
  /-- If it is earlier, an event of its clock at the very end comes behind it, and who seeks to a time
  behind the end passes over the packet, unless another one before it is read. -/
  misses : ∀ instant, p.stop = some instant →
    instant.nanoseconds < p.ruled trace.metadata stop.type.clock? instant.cycles →
    ∀ event, p.SharesClock trace file stop event → event.cycles = instant.cycles →
      instant.nanoseconds < event.timestamp ∧
        ∀ nanoseconds, instant.nanoseconds < nanoseconds →
          (∀ q ∈ PacketIndex.packets (file.packets.take p.index),
            q.endsAtOrAfter nanoseconds = false) →
            p.index < file.packetAt nanoseconds

/-! ### Clocks -/

section Clocks

variable {trace : Trace} {file : StreamFile} {p : Packet} {head : PacketHead} {metadata : Metadata}
  {options : ReadOptions} {data : ByteArray} {event : Event}

lemma FromHead.clock_eq_startClock? (h : p.FromHead metadata options data head) :
    p.clock = p.startClock? := by
  rw [h.clock_eq, PacketHead.clock?, startClock?, h.contextField?_eq]

/-- The end of a packet is converted on the clock of its start. -/
lemma FromHead.stop_eq_ruled (h : p.FromHead metadata options data head) {stop : Field}
    (hstop : p.contextField? "timestamp_end" = some stop) :
    p.stop = stop.unsigned?.map fun cycles => ⟨cycles, p.ruled metadata none cycles⟩ := by
  have hnumber : head.number? "timestamp_end" = stop.unsigned? := by
    rw [← h.contextNumber?_eq, contextNumber?, hstop, Option.bind_some]
  rw [h.stop_eq, PacketHead.instant?, hnumber, ← h.clock_eq, h.clock_eq_startClock?]
  rfl

/-- The time stamps of the events in a packet follow the rule. -/
lemma FromHead.timestamp_eq_ruled (h : p.FromHead trace.metadata options data head)
    (hmem : .ok event ∈ trace.entryEvents file p.index (.ok p)) (hlost : event.lost = none) :
    event.timestamp = p.ruled trace.metadata event.ownClock? event.cycles := by
  obtain ⟨reader, hopen, hresult⟩ := Trace.exists_reader_of_mem_entryEvents hmem
  have htimestamp := Event.timestamp_of_mem_toList hresult hlost
  rwa [PacketReader.packet_of_ofPacket hopen, h.clock_eq_startClock?] at htimestamp

end Clocks

end Packet

/-! ## Places in the index -/

namespace PacketIndex

variable {metadata : Metadata} {options : ReadOptions} {file : ByteArray} {p : Packet}

/-- A packet stands at its number. -/
lemma getElem?_index (h : p ∈ (ofFile metadata options file).packets) :
    (ofFile metadata options file)[p.index]? = some (.ok p) := by
  obtain ⟨i, hi⟩ := List.mem_iff_getElem?.mp (mem_packets.mp h)
  obtain ⟨_, _, -, hentry⟩ := (framing_ofFile metadata options file).exists_entry hi
  obtain ⟨-, hindex, -⟩ := hentry.framed
  rw [hindex, Nat.zero_add, hi]

end PacketIndex

namespace StreamFile

variable {file : StreamFile} {p : Packet} {nanoseconds : ℕ}

/-- The file is read from a packet on that may hold what is sought, or from an earlier one. -/
lemma packetAt_le (hp : file.packets[p.index]? = some (.ok p))
    (hends : p.endsAtOrAfter nanoseconds = true) : file.packetAt nanoseconds ≤ p.index := by
  by_contra hgt
  have hnot := List.not_of_lt_findIdx (Nat.lt_of_not_le hgt)
  obtain ⟨_, hget⟩ := List.getElem?_eq_some_iff.mp hp
  rw [hget] at hnot
  simp [hends] at hnot

/-- If neither a packet nor one before it may hold what is sought, the file is read from behind it on. -/
lemma lt_packetAt (hp : file.packets[p.index]? = some (.ok p))
    (hends : p.endsAtOrAfter nanoseconds = false)
    (hbefore : ∀ q ∈ PacketIndex.packets (file.packets.take p.index),
      q.endsAtOrAfter nanoseconds = false) :
    p.index < file.packetAt nanoseconds := by
  obtain ⟨hindex, hget⟩ := List.getElem?_eq_some_iff.mp hp
  refine List.lt_findIdx_of_not hindex fun i hi => ?_
  cases hentry : file.packets[i] with
  | error error => exact Bool.false_ne_true
  | ok q =>
    rcases Nat.lt_or_eq_of_le hi with hlt | rfl
    · have hmem : .ok q ∈ file.packets.take p.index :=
        List.mem_take_iff_getElem.mpr ⟨i, by omega, hentry⟩
      simp [hbefore q (PacketIndex.mem_packets.mpr hmem)]
    · rw [hget] at hentry
      cases hentry
      simp [hends]

/-- What an entry of the index gives is given from it on, and from the entries before it. -/
lemma mem_eventsFrom {trace : Trace} {index start : ℕ} {entry : Except FormatError Packet}
    {result : Except TraceError Event} (hentry : file.packets[index]? = some entry)
    (hresult : result ∈ trace.entryEvents file index entry) (hle : start ≤ index) :
    result ∈ trace.eventsFrom file start := by
  refine List.mem_flatMap.mpr ⟨(entry, index), ?_, hresult⟩
  rw [List.mk_mem_zipIdx_iff_le_and_getElem?_sub, List.getElem?_drop]
  exact ⟨hle, by rwa [Nat.add_sub_cancel' hle]⟩

end StreamFile

/-! ## The end of a packet -/

namespace Packet

variable {trace : Trace} {file : StreamFile} {p : Packet} {stop : Field} {instant : Instant}
  {event : Event}

/-- A packet that ends no earlier than by the rule keeps the events of its clock up to its end. -/
lemma SharesClock.covered (hevent : p.SharesClock trace file stop event)
    (htimestamp : event.timestamp = p.ruled trace.metadata event.ownClock? event.cycles)
    (hfile : file ∈ trace.files) (hentry : file.packets[p.index]? = some (.ok p))
    (hinstant : p.stop = some instant)
    (hruled : p.ruled trace.metadata stop.type.clock? instant.cycles ≤ instant.nanoseconds)
    (hle : event.cycles ≤ instant.cycles) :
    event.timestamp ≤ instant.nanoseconds ∧ p.Keeps trace file event := by
  have hbefore : event.timestamp ≤ instant.nanoseconds := calc
    event.timestamp = p.ruled trace.metadata event.ownClock? event.cycles := htimestamp
    _ ≤ p.ruled trace.metadata event.ownClock? instant.cycles := Metadata.toNanoseconds_le hle
    _ = p.ruled trace.metadata stop.type.clock? instant.cycles := ruled_congr hevent.clock
    _ ≤ instant.nanoseconds := hruled
  refine ⟨hbefore, fun nanoseconds hsought => ?_⟩
  have hends : p.endsAtOrAfter nanoseconds = true := by
    simpa [endsAtOrAfter, hinstant] using Nat.le_trans hsought hbefore
  have hat := StreamFile.packetAt_le hentry hends
  refine ⟨hat, fun r hr => ?_⟩
  refine (TraceReader.exists_current_seek_iff hr.sound nanoseconds event).mpr ⟨file, hfile, ?_⟩
  exact Queue.mem_dropBelow (StreamFile.mem_eventsFrom hentry hevent.mem hat) hsought

/-- Where a packet ends earlier than by the rule, the events of its clock at its end come behind it. -/
lemma SharesClock.missed (hevent : p.SharesClock trace file stop event)
    (htimestamp : event.timestamp = p.ruled trace.metadata event.ownClock? event.cycles)
    (hentry : file.packets[p.index]? = some (.ok p)) (hinstant : p.stop = some instant)
    (hruled : instant.nanoseconds < p.ruled trace.metadata stop.type.clock? instant.cycles)
    (heq : event.cycles = instant.cycles) :
    instant.nanoseconds < event.timestamp ∧
      ∀ nanoseconds, instant.nanoseconds < nanoseconds →
        (∀ q ∈ PacketIndex.packets (file.packets.take p.index),
          q.endsAtOrAfter nanoseconds = false) →
          p.index < file.packetAt nanoseconds := by
  have hbehind : instant.nanoseconds < event.timestamp := by
    rwa [htimestamp, ruled_congr hevent.clock, heq]
  refine ⟨hbehind, fun nanoseconds hsought hothers => ?_⟩
  have hends : p.endsAtOrAfter nanoseconds = false := by
    simpa [endsAtOrAfter, hinstant] using hsought
  exact StreamFile.lt_packetAt hentry hends hothers

/-- An end that is converted on the clock of the start is that of the rule if both clocks agree on it. -/
lemma stop_eq_of_agree (hstop : p.stop = stop.unsigned?.map fun cycles =>
      ⟨cycles, p.ruled trace.metadata none cycles⟩)
    (hagree : ∀ instant, p.stop = some instant →
      p.ruled trace.metadata stop.type.clock? instant.cycles = instant.nanoseconds) :
    p.stop = stop.unsigned?.map fun cycles =>
      ⟨cycles, p.ruled trace.metadata stop.type.clock? cycles⟩ := by
  cases hcycles : stop.unsigned? with
  | none => rw [hstop, hcycles, Option.map_none, Option.map_none]
  | some cycles =>
    have hinstant : p.stop = some ⟨cycles, p.ruled trace.metadata none cycles⟩ := by
      rw [hstop, hcycles, Option.map_some]
    rw [hinstant, Option.map_some, hagree _ hinstant]

/-- **What the end of a packet is worth** in a trace, for every packet whose context gives an end. -/
theorem endsAt_of_located (hlocated : trace.Located) (hfile : file ∈ trace.files)
    (hp : p ∈ file.located) (hstop : p.contextField? "timestamp_end" = some stop) :
    p.EndsAt trace file stop := by
  have hpackets := hlocated file hfile
  have hindexed : p ∈ (PacketIndex.ofFile trace.metadata trace.options file.data).packets := by
    rw [← hpackets]
    exact hp
  obtain ⟨head, hhead⟩ := PacketIndex.exists_head_of_mem hindexed
  have hentry : file.packets[p.index]? = some (.ok p) := by
    rw [hpackets]
    exact PacketIndex.getElem?_index hindexed
  have hstop_eq := hhead.stop_eq_ruled hstop
  have htimestamp {event : Event} (hmem : .ok event ∈ trace.entryEvents file p.index (.ok p))
      (hlost : event.lost = none) :
      event.timestamp = p.ruled trace.metadata event.ownClock? event.cycles :=
    hhead.timestamp_eq_ruled hmem hlost
  -- Where both clocks agree, this is also what the rule says of the events.
  have hcovers instant (hinstant : p.stop = some instant)
      (hruled : p.ruled trace.metadata stop.type.clock? instant.cycles ≤ instant.nanoseconds)
      event (hevent : p.SharesClock trace file stop event) (hle : event.cycles ≤ instant.cycles) :=
    hevent.covered (htimestamp hevent.mem hevent.lost) hfile hentry hinstant hruled hle
  refine
    { stop_eq := hstop_eq
      timestamp_eq := fun _ => htimestamp
      endsByRule_iff := ⟨fun hrule instant hinstant => ?_, fun hagree => ?_⟩
      covers := hcovers
      misses := fun instant hinstant hruled event hevent =>
        hevent.missed (htimestamp hevent.mem hevent.lost) hentry hinstant hruled }
  · rw [hrule.stop_eq] at hinstant
    obtain ⟨cycles, -, rfl⟩ := Option.map_eq_some_iff.mp hinstant
    rfl
  · exact ⟨stop_eq_of_agree hstop_eq hagree,
      fun instant hinstant => hcovers instant hinstant (hagree instant hinstant).le⟩

end Packet

section Example

/-- A structure of one byte, which counts the cycles of the given clock. -/
def FieldType.ticks (clock name : String) : FieldType :=
  .struct 8 [(name, .integer { IntegerType.plain 8 false .little with clock := some clock })]

/-- Metadata with a clock that counts nanoseconds and one that counts milliseconds.  A packet context
consists of the end in milliseconds, and an event of its time stamp in milliseconds. -/
def Metadata.twoClocks : Metadata :=
  { Metadata.bytewise [] with
    streams := Dictionary.empty.insert 0 { StreamSchema.empty with
      packetContext := some (.ticks "slow" "timestamp_end")
      eventHeader := some (.ticks "slow" "timestamp")
      anonymousEvent := some (.named "tick") }
    clocks := (Dictionary.empty.insert "fast" (.named "fast")).insert "slow"
      { Clock.named "slow" with frequency := 1000 } }

/-- One packet that ends at 5 milliseconds, with ticks at 3 and 5 milliseconds. -/
def Trace.twoClocks : Trace :=
  let data : ByteArray := ⟨#[5, 3, 5]⟩
  { metadata := .twoClocks
    files := [{ name := "ticks", data, packets := PacketIndex.ofFile .twoClocks {} data }]
    options := {} }

namespace Packet

lemma located_twoClocks : Trace.twoClocks.Located := by
  intro file hfile
  cases List.mem_singleton.mp hfile
  rfl

/-- Whether a result is an event that counts the given clock, with the given cycles. -/
def ticksAt (clock : String) (cycles : ℕ) : Except TraceError Event → Bool
  | .ok event => event.lost.isNone && event.ownClock? == some clock && event.cycles == cycles
  | .error _ => false

/-- The packet is said to end at 5 nanoseconds, though its end and the event at its end count
milliseconds. -/
lemma exists_twoClocks : ∃ file ∈ Trace.twoClocks.files, ∃ p ∈ file.located, ∃ stop event,
    p.contextField? "timestamp_end" = some stop ∧ p.stop = some ⟨5, 5⟩ ∧ p.index = 0 ∧
      p.ruled Trace.twoClocks.metadata stop.type.clock? 5 = 5000000 ∧
      p.SharesClock Trace.twoClocks file stop event ∧ event.cycles = 5 := by
  have hfound : ∃ file ∈ Trace.twoClocks.files, ∃ p ∈ file.located,
      ∃ stop ∈ p.contextField? "timestamp_end", p.stop = some ⟨5, 5⟩ ∧ p.index = 0 ∧
        stop.type.clock? = some "slow" ∧
        ∃ result ∈ Trace.twoClocks.entryEvents file p.index (.ok p), ticksAt "slow" 5 result = true := by
    decide +kernel
  obtain ⟨file, hfile, p, hp, stop, hstop, hinstant, hindex, hslow, result, hresult, hticks⟩ := hfound
  have hruled : p.ruled Trace.twoClocks.metadata (some "slow") 5 = 5000000 := by
    rw [ruled, Option.some_or]
    decide +kernel
  cases result with
  | error error => cases hticks
  | ok event =>
    simp only [ticksAt, Bool.and_eq_true, Option.isNone_iff_eq_none, beq_iff_eq] at hticks
    obtain ⟨⟨hlost, hown⟩, hcycles⟩ := hticks
    have hshares : p.SharesClock Trace.twoClocks file stop event :=
      ⟨hresult, hlost, by rw [hown, hslow]⟩
    exact ⟨file, hfile, p, hp, stop, event, hstop, hinstant, hindex, hslow ▸ hruled, hshares, hcycles⟩

/-- Who seeks to the second microsecond passes over the packet, in which there are only later events. -/
theorem endsAt_twoClocks : ∃ file ∈ Trace.twoClocks.files, ∃ p ∈ file.located, ∃ stop,
    p.contextField? "timestamp_end" = some stop ∧ p.EndsAt Trace.twoClocks file stop ∧
      ∃ event, p.SharesClock Trace.twoClocks file stop event ∧ event.timestamp = 5000000 ∧
        p.index < file.packetAt 1000 := by
  obtain ⟨file, hfile, p, hp, stop, event, hstop, hinstant, hindex, hruled, hshares, hcycles⟩ :=
    exists_twoClocks
  have hends := endsAt_of_located located_twoClocks hfile hp hstop
  have hearlier : 5 < p.ruled Trace.twoClocks.metadata stop.type.clock? 5 := by omega
  obtain ⟨-, hmissed⟩ := hends.misses _ hinstant hearlier event hshares hcycles
  have htimestamp : event.timestamp = 5000000 := by
    rw [hends.timestamp_eq event hshares.mem hshares.lost, ruled_congr hshares.clock, hcycles, hruled]
  refine ⟨file, hfile, p, hp, stop, hstop, hends, event, hshares, htimestamp, ?_⟩
  refine hmissed 1000 (by decide) fun q hq => ?_
  rw [hindex] at hq
  cases hq

/-- Packets do not always end by the rule. -/
theorem not_forall_endsByRule :
    ¬ ∀ (metadata : Metadata) (sources : List (String × ByteArray)) (options : ReadOptions)
        (trace : Trace) (file : StreamFile) (p : Packet) (stop : Field),
      Trace.ofSources metadata sources options = .ok trace → file ∈ trace.files → p ∈ file.located →
        p.contextField? "timestamp_end" = some stop → p.EndsByRule trace file stop := by
  intro hclaim
  obtain ⟨file, hfile, p, hp, stop, -, hstop, hinstant, -, hruled, -, -⟩ := exists_twoClocks
  have hrule := hclaim .twoClocks [("ticks", ⟨#[5, 3, 5]⟩)] {} Trace.twoClocks file p stop rfl hfile
    hp hstop
  obtain ⟨cycles, -, heq⟩ := Option.map_eq_some_iff.mp (hrule.stop_eq.symm.trans hinstant)
  obtain ⟨rfl, hnanoseconds⟩ := Instant.mk.inj heq
  omega

end Packet

end Example

end CommonTrace
