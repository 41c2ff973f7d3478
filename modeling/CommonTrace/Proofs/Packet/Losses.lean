import CommonTrace.Proofs.Packet.Calls
import CommonTrace.Proofs.Packet.Origin
import CommonTrace.Proofs.Schema.Clock
import CommonTrace.Proofs.Trace.Seek

/-!
# Lost events

The tracer says in a packet how many events it has discarded in all.  The index makes of these totals
what was lost before each packet, and the reader of a packet announces the loss with a marker.

`PacketIndex.CountsLosses` says what both come to: the losses are the differences of the totals, and a
packet before which something was lost, and no other, starts with one marker that tells how much and
over what time.  It holds of every index (`PacketIndex.countsLosses_ofFile`), whatever packets are
broken, have no total or no end, or have a total that is smaller than the one before.
-/

namespace CommonTrace

/-! ## Sixty-four bits -/

lemma Field.lt_of_unsigned? {f : Field} {n : ℕ} (h : f.unsigned? = some n) : n < twoPow 64 := by
  obtain ⟨value, -, hvalue⟩ := Option.bind_eq_some_iff.mp h
  unfold IntegerValue.unsigned? at hvalue
  split at hvalue
  · rename_i hfits
    have hlt := hfits.2
    have hpositive := twoPow_pos 64
    cases hvalue
    omega
  · cases hvalue

lemma PacketHead.lt_of_instant? {metadata : Metadata} {head : PacketHead} {name : String}
    {instant : Instant} (h : head.instant? metadata name = some instant) :
    instant.nanoseconds < twoPow 64 := by
  obtain ⟨cycles, hcycles, rfl⟩ := Option.map_eq_some_iff.mp h
  obtain ⟨f, -, hf⟩ := Option.bind_eq_some_iff.mp hcycles
  exact Metadata.toNanoseconds_lt (Field.lt_of_unsigned? hf)

/-! ## Differences of totals -/

/-- The numbers by which totals grow, where a total that is smaller than the one before counts as one
that has not grown. -/
def growths (start : ℕ) (totals : List ℕ) : List ℕ :=
  List.zipWith (· - ·) totals (start :: totals)

lemma growths_cons (start total : ℕ) (totals : List ℕ) :
    growths start (total :: totals) = (total - start) :: growths total totals := by
  simp [growths]

/-- If totals do not decrease, what they grow by adds up to the last. -/
lemma sum_growths {start : ℕ} {totals : List ℕ} (h : (start :: totals).Pairwise (· ≤ ·)) :
    start + (growths start totals).sum = totals.getLastD start := by
  induction totals generalizing start with
  | nil => simp [growths]
  | cons total totals ih =>
    obtain ⟨hstart, htotals⟩ := List.pairwise_cons.mp h
    have hle : start ≤ total := hstart total List.mem_cons_self
    have hrest := ih htotals
    rw [growths_cons, List.sum_cons, List.getLastD_cons]
    omega

/-! ## What the index counts -/

namespace Packet

variable {p : Packet}

lemma eventsLost_countLost (h : p.located = p) (discarded : ℕ) (previousStop : Option Instant) :
    (p.countLost discarded previousStop).eventsLost =
      (p.eventsDiscarded.map (· - discarded)).getD 0 := by
  have hzero : p.eventsLost = 0 := by
    rw [← h]
    rfl
  unfold countLost
  cases hdiscarded : p.eventsDiscarded with
  | none => simp [hzero]
  | some total =>
    by_cases hlt : discarded < total
    · simp [hlt]
    · simp [hlt, hzero]
      omega

/-- A packet before which events were lost knows the end of the packet before it. -/
lemma lostSince_countLost (h : p.located = p) {discarded : ℕ} {previousStop : Option Instant}
    (hlost : 0 < (p.countLost discarded previousStop).eventsLost) :
    (p.countLost discarded previousStop).lostSince = previousStop := by
  rw [eventsLost_countLost h] at hlost
  unfold countLost
  cases hdiscarded : p.eventsDiscarded with
  | none => simp [hdiscarded] at hlost
  | some total =>
    have hlt : discarded < total := by
      simp [hdiscarded] at hlost
      omega
    simp [hlt]

end Packet

namespace PacketIndex

/-- The losses of the packets that have a total, in their order. -/
def losses (index : PacketIndex) : List ℕ :=
  index.packets.filterMap fun p => p.eventsDiscarded.map fun _ => p.eventsLost

lemma losses_countLost {index : PacketIndex} (hlocated : ∀ p ∈ index.packets, p.located = p)
    (discarded : ℕ) (previousStop : Option Instant) :
    (countLost discarded previousStop index).losses = growths discarded index.totals := by
  induction index generalizing discarded previousStop with
  | nil => rfl
  | cons entry rest ih =>
    cases entry with
    | error error => exact ih hlocated discarded previousStop
    | ok p =>
      simp only [packets_ok_cons, List.forall_mem_cons] at hlocated
      obtain ⟨hp, hrest⟩ := hlocated
      have hlost := Packet.eventsLost_countLost hp discarded previousStop
      cases hdiscarded : p.eventsDiscarded with
      | none =>
        have hothers := ih hrest discarded p.stop
        simpa [losses, countLost, totals, hdiscarded] using hothers
      | some total =>
        have hothers := ih hrest total p.stop
        simp only [hdiscarded, Option.map_some, Option.getD_some] at hlost
        simpa [losses, countLost, totals, hdiscarded, growths_cons, hlost] using hothers

/-- A packet without a total has lost nothing, so the losses make up what all packets have lost. -/
lemma sum_losses {index : PacketIndex}
    (h : ∀ p ∈ index.packets, p.eventsDiscarded = none → p.eventsLost = 0) :
    index.losses.sum = (index.packets.map Packet.eventsLost).sum := by
  unfold losses
  revert h
  induction index.packets with
  | nil => simp
  | cons p rest ih =>
    intro h
    obtain ⟨hp, hrest⟩ := List.forall_mem_cons.mp h
    cases hdiscarded : p.eventsDiscarded with
    | none => simp [hdiscarded, hp hdiscarded, ih hrest]
    | some total => simp [hdiscarded, ih hrest]

end PacketIndex

/-! ## Markers -/

/-- **What a marker tells**: that `count` events were lost from one nanosecond to another. -/
structure Event.Marks (event : Event) (count start stop : ℕ) : Prop where
  lost : event.lost = some { count, start, stop }
  ordered : start ≤ stop
  payload : event.payload.map (fun f => (f.name, f.unsigned?)) =
    [("lost_events", some count), ("duration", some (stop - start))]

lemma LostEvents.unsigned?_counter {n : ℕ} (name : String) (h : n < twoPow 64) :
    (counter name n).unsigned? = some n := by
  have hfits : FitsUnsigned 64 (n : ℤ) := ⟨by omega, by omega⟩
  have hinteger : (counter name n).integer? = some { value := n, width := 64, signed := false } := rfl
  have hvalue : IntegerValue.unsigned? { value := n, width := 64, signed := false } = some n := by
    unfold IntegerValue.unsigned?
    rw [if_pos hfits, Int.toNat_natCast]
  rw [Field.unsigned?, hinteger, Option.bind_some, hvalue]

/-- The nanosecond at which the events before a packet began to be lost, where `previousStop` is the end
of the packet before it: if that is not known, the start of the packet counts. -/
def Packet.lossStart (p : Packet) (previousStop : Option Instant) : ℕ :=
  ((previousStop.or p.start).map Instant.nanoseconds).getD 0

/-- The marker of a packet tells what the index has counted for it. -/
lemma Event.marks_marker {metadata : Metadata} {p : Packet} {previousStop : Option Instant}
    (hsince : p.lostSince = previousStop) (hcount : p.eventsLost < twoPow 64)
    (hstart : ∀ start, p.start = some start → start.nanoseconds < twoPow 64) :
    ∃ stop, (marker metadata p).Marks p.eventsLost (p.lossStart previousStop) stop := by
  have hbegin : p.lossStart previousStop =
      (p.lostSince.getD
        { cycles := (p.start.map Instant.cycles).getD 0
          nanoseconds := (p.start.map Instant.nanoseconds).getD 0 }).nanoseconds := by
    rw [hsince, Packet.lossStart]
    cases previousStop <;> cases p.start <;> rfl
  have hstop : (p.start.map Instant.nanoseconds).getD 0 < twoPow 64 := by
    cases hshape : p.start with
    | none => simp [twoPow]
    | some start => simpa using hstart start hshape
  have hduration := fun n : ℕ => LostEvents.unsigned?_counter (n := n) "duration"
  refine ⟨max ((p.start.map Instant.nanoseconds).getD 0) (p.lossStart previousStop), ?_, ?_, ?_⟩
  · simp [marker, hbegin]
  · exact Nat.le_max_right _ _
  · have hpayload : (marker metadata p).payload =
        [LostEvents.counter "lost_events" p.eventsLost,
          LostEvents.counter "duration"
            (max ((p.start.map Instant.nanoseconds).getD 0) (p.lossStart previousStop) -
              p.lossStart previousStop)] := by
      rw [hbegin]
      rfl
    rw [hpayload]
    simp only [List.map_cons, List.map_nil, LostEvents.unsigned?_counter _ hcount]
    rw [LostEvents.unsigned?_counter _ (by omega)]
    rfl

/-- A marker comes first, and only where events were lost. -/
lemma PacketReader.Course.exists_lost_iff {metadata : Metadata} {limit : ℕ} {r : PacketReader}
    {events : List Event} {faults : List DecodeError} {p : Packet}
    (h : r.Course metadata limit (p.markers metadata) events faults) (n : ℕ) :
    (∃ event, r.result? metadata limit n = some (.ok event) ∧ event.lost ≠ none) ↔
      n = 0 ∧ 0 < p.eventsLost := by
  have hevents : ∀ (k : ℕ) (event : Event),
      (events.map Except.ok ++ faults.map Except.error)[k]? = some (.ok event) →
        event.lost = none := by
    intro k event hk
    apply h.lost_of_events
    simpa using List.mem_of_getElem? hk
  by_cases hlost : 0 < p.eventsLost
  · simp only [h.result?, Packet.markers, hlost, if_true]
    cases n with
    | zero => simp [lost_marker]
    | succ n =>
      simp only [List.map_cons, List.cons_append, List.getElem?_cons_succ]
      constructor
      · rintro ⟨event, hevent, hmark⟩
        exact absurd (hevents n event hevent) hmark
      · simp
  · simp only [h.result?, Packet.markers, hlost, if_false, List.nil_append]
    constructor
    · rintro ⟨event, hevent, hmark⟩
      exact absurd (hevents n event hevent) hmark
    · simp

namespace PacketIndex

/-! ## The index of a file -/

/-- **What an index counts, and what the readers of its packets announce.** -/
structure CountsLosses (metadata : Metadata) (limit : ℕ) (file : ByteArray) (index : PacketIndex) :
    Prop where
  /-- What was lost before the packets that have a total is what their totals have grown by. -/
  losses : index.losses = growths 0 index.totals
  /-- If the totals do not decrease, all packets together have lost the last total. -/
  sum : index.totals.Pairwise (· ≤ ·) →
    (index.packets.map Packet.eventsLost).sum = index.totals.getLastD 0
  /-- Only the first result of a packet is a marker, and only where events were lost. -/
  once : ∀ p ∈ index.packets, ∃ r, PacketReader.ofPacket file p = .ok r ∧
    ∀ n, (∃ event, r.result? metadata limit n = some (.ok event) ∧ event.lost ≠ none) ↔
      n = 0 ∧ 0 < p.eventsLost
  /-- The marker tells how many events were lost, from the end of the packet before on. -/
  marks : ∀ (before : PacketIndex) (p : Packet) (after : PacketIndex),
    index = before ++ .ok p :: after → 0 < p.eventsLost →
    ∃ r marker stop, PacketReader.ofPacket file p = .ok r ∧
      r.result? metadata limit 0 = some (.ok marker) ∧
      marker.Marks p.eventsLost (p.lossStart (lastStop before none)) stop

section Files

variable {metadata : Metadata} {options : ReadOptions} {limit : ℕ} {file : ByteArray} {p : Packet}

lemma located_of_mem_locateFrom {count : ℕ}
    (h : p ∈ (locateFrom metadata options file 0 0 count).packets) : p.located = p := by
  obtain ⟨_, _, hlocate⟩ := exists_locate_of_mem h
  exact (Packet.exists_head_of_locate hlocate).1

lemma losses_ofFile (metadata : Metadata) (options : ReadOptions) (file : ByteArray) :
    (ofFile metadata options file).losses = growths 0 (ofFile metadata options file).totals := by
  rw [ofFile, losses_countLost fun p hp => located_of_mem_locateFrom hp, totals_countLost]

lemma exists_eventsLost_eq (h : p ∈ (ofFile metadata options file).packets) :
    ∃ discarded, p.eventsLost = (p.eventsDiscarded.map (· - discarded)).getD 0 := by
  obtain ⟨before, after, hsplit⟩ := List.append_of_mem (mem_packets.mp h)
  have hcounted := eq_countLost_of_ofFile hsplit
  have hlost := Packet.eventsLost_countLost (p := p.located) rfl (lastTotal before 0)
    (lastStop before none)
  rw [← hcounted, Packet.eventsDiscarded_located] at hlost
  exact ⟨_, hlost⟩

lemma eventsLost_eq_zero (h : p ∈ (ofFile metadata options file).packets)
    (hdiscarded : p.eventsDiscarded = none) : p.eventsLost = 0 := by
  obtain ⟨discarded, hlost⟩ := exists_eventsLost_eq h
  simpa [hdiscarded] using hlost

lemma eventsLost_lt (h : p ∈ (ofFile metadata options file).packets) :
    p.eventsLost < twoPow 64 := by
  have hpositive := twoPow_pos 64
  obtain ⟨head, hhead⟩ := exists_head_of_mem h
  obtain ⟨discarded, hlost⟩ := exists_eventsLost_eq h
  cases hdiscarded : p.eventsDiscarded with
  | none =>
    rw [eventsLost_eq_zero h hdiscarded]
    exact hpositive
  | some total =>
    have htotal : total < twoPow 64 := by
      rw [hhead.eventsDiscarded_eq] at hdiscarded
      obtain ⟨f, -, hf⟩ := Option.bind_eq_some_iff.mp hdiscarded
      exact Field.lt_of_unsigned? hf
    simp only [hdiscarded, Option.map_some, Option.getD_some] at hlost
    omega

/-- A packet of the index can be read, and the results have a course. -/
lemma exists_reader_course (metadata : Metadata) (limit : ℕ)
    (h : p ∈ (ofFile metadata options file).packets) :
    ∃ r events faults, PacketReader.ofPacket file p = .ok r ∧
      r.Course metadata limit (p.markers metadata) events faults := by
  obtain ⟨_, _, _, -, hentry⟩ := (framing_ofFile metadata options file).exists_entry_of_mem h
  obtain ⟨r, hr, -⟩ := hentry.framed.1.exists_reader
  obtain ⟨events, faults, hcourse⟩ := PacketReader.exists_course metadata limit hr
  exact ⟨r, events, faults, hr, hcourse⟩

/-- The marker of a packet of the index. -/
lemma marks_of_split {before after : PacketIndex}
    (hsplit : ofFile metadata options file = before ++ .ok p :: after) (hlost : 0 < p.eventsLost) :
    ∃ stop, (Event.marker metadata p).Marks p.eventsLost (p.lossStart (lastStop before none))
      stop := by
  have hp : p ∈ (ofFile metadata options file).packets := by
    rw [mem_packets, hsplit]
    simp
  have hcounted := eq_countLost_of_ofFile hsplit
  have hsince : p.lostSince = lastStop before none := by
    rw [hcounted] at hlost ⊢
    exact Packet.lostSince_countLost rfl hlost
  apply Event.marks_marker hsince (eventsLost_lt hp)
  intro start hstart
  obtain ⟨head, hhead⟩ := exists_head_of_mem hp
  rw [hhead.start_eq] at hstart
  exact PacketHead.lt_of_instant? hstart

end Files

/-- **Lost events are counted once and announced once**, in every index. -/
theorem countsLosses_ofFile (metadata : Metadata) (options : ReadOptions) (limit : ℕ)
    (file : ByteArray) :
    CountsLosses metadata limit file (ofFile metadata options file) := by
  refine ⟨losses_ofFile metadata options file, ?_, ?_, ?_⟩
  · intro hascending
    have hfromZero : (0 :: (ofFile metadata options file).totals).Pairwise (· ≤ ·) := by
      simpa using hascending
    have hsum := sum_growths hfromZero
    rwa [← losses_ofFile, Nat.zero_add, sum_losses fun p hp => eventsLost_eq_zero hp] at hsum
  · intro p hp
    obtain ⟨r, events, faults, hr, hcourse⟩ := exists_reader_course metadata limit hp
    exact ⟨r, hr, hcourse.exists_lost_iff⟩
  · intro before p after hsplit hlost
    have hp : p ∈ (ofFile metadata options file).packets := by
      rw [mem_packets, hsplit]
      simp
    obtain ⟨r, events, faults, hr, hcourse⟩ := exists_reader_course metadata limit hp
    have hfirst : r.result? metadata limit 0 = some (.ok (Event.marker metadata p)) := by
      rw [hcourse.result?, Packet.markers, if_pos hlost]
      rfl
    obtain ⟨stop, hmarks⟩ := marks_of_split hsplit hlost
    exact ⟨r, _, stop, hr, hfirst, hmarks⟩

/-- One event is lost, then comes a packet that claims more content than it has room for, and three more
events have been lost before the last packet, since the end of the first. -/
example :
    let metadata := Metadata.bytewise
      ["content_size", "packet_size", "timestamp_begin", "timestamp_end", "events_discarded"]
    let index := ofFile metadata {} ⟨#[48, 48, 1, 3, 1, 2, 56, 48, 4, 5, 9, 4, 48, 48, 6, 9, 4, 7]⟩
    index.totals = [1, 4] ∧ index.losses = [1, 3] ∧
      (index.packets.flatMap (Packet.markers metadata)).map Event.lost =
        [some { count := 1, start := 1, stop := 1 }, some { count := 3, start := 3, stop := 6 }] := by
  decide +kernel

end PacketIndex

end CommonTrace
