import CommonTrace.Proofs.Trace.Drain

/-!
# Seeking

Sending a reader to a point in time starts each file at the first packet that does not end before it,
and skips events from there on.  What the files give behind that does not depend on what has been
read before (`TraceReader.queues_seek`).

Where no file has errors and time does not run backwards, the skipped packets and events are exactly
those before the point in time.  The reader then gives what a fresh reader would give, without the
earlier events (`TraceReader.drains_seek`).

An error ends the skipping, because it has to be reported.  Behind it nothing is skipped any more, so
a reader may give an event from before the point in time.  `TraceReader.early_event_iff` says exactly
when.
-/

namespace CommonTrace

/-! ## Sample traces -/

/-- A structure of bytes with the given names. -/
def FieldType.bytes (names : List String) : FieldType :=
  .struct 8 (names.map fun name => (name, .integer (.plain 8 false .little)))

/-- Metadata of traces in which everything takes one byte: a packet context consists of the given
fields, and an event of its time stamp. -/
def Metadata.bytewise (context : List String) : Metadata where
  major := none
  minor := none
  uuid := none
  byteOrder := .little
  packetHeader := none
  streams := Dictionary.empty.insert 0 { StreamSchema.empty with
    packetContext := some (.bytes context)
    eventHeader := some (.bytes ["timestamp"])
    anonymousEvent := some (.named "tick") }
  clocks := .empty
  env := .empty
  warnings := []

/-- A trace of one file in which everything takes one byte. -/
def Trace.bytewise (context : List String) (bytes : List UInt8) : Trace :=
  let metadata := Metadata.bytewise context
  let data : ByteArray := ⟨bytes.toArray⟩
  { metadata
    files := [{ name := "ticks", data, packets := PacketIndex.ofFile metadata {} data }]
    options := {} }

/-- Ticks at 1 and 3, then a loss of two events, then ticks at 5 and 9. -/
def Trace.lossy : Trace :=
  .bytewise ["content_size", "packet_size", "timestamp_begin", "timestamp_end", "events_discarded"]
    [56, 56, 1, 3, 0, 1, 3, 56, 56, 4, 9, 2, 5, 9]

/-- A tick at 1, then a packet that claims more content than it has room for, then a tick at 3. -/
def Trace.broken : Trace :=
  .bytewise ["content_size", "packet_size"] [24, 24, 1, 40, 24, 0, 24, 24, 3]

/-! ## One file -/

namespace Trace

variable {trace : Trace} {file : StreamFile}

/-- What a file gives from a packet on is part of what it gives. -/
lemma fileEvents_eq_append (trace : Trace) (file : StreamFile) (start : ℕ) :
    trace.fileEvents file =
      trace.indexEvents file 0 (file.packets.take start) ++ trace.eventsFrom file start := by
  rw [fileEvents, eventsFrom, List.drop_zero, eventsFrom]
  rcases Nat.le_total start file.packets.length with hle | hle
  · have hlength : (file.packets.take start).length = start := List.length_take_of_le hle
    conv_lhs => rw [← List.take_append_drop start file.packets]
    rw [indexEvents, List.zipIdx_append, List.flatMap_append, hlength, Nat.zero_add]
    rfl
  · rw [List.take_of_length_le hle, List.drop_of_length_le hle]
    simp [indexEvents]

lemma ascending_eventsFrom (h : Queue.Ascending Event.timestamp (trace.fileEvents file))
    (start : ℕ) : Queue.Ascending Event.timestamp (trace.eventsFrom file start) := by
  rw [fileEvents_eq_append trace file start] at h
  exact List.Pairwise.sublist ((List.sublist_append_right _ _).filterMap _) h

lemma clean_eventsFrom (h : Queue.Clean (trace.fileEvents file)) (start : ℕ) :
    Queue.Clean (trace.eventsFrom file start) := by
  intro error herror
  rw [fileEvents_eq_append trace file start] at h
  exact h error (List.mem_append_right _ herror)

/-- A file without errors has no packets that could not be located. -/
lemma packet_of_clean (h : Queue.Clean (trace.fileEvents file)) {index : ℕ}
    {entry : Except FormatError Packet} (hentry : file.packets[index]? = some entry) :
    ∃ packet, entry = .ok packet := by
  cases entry with
  | ok packet => exact ⟨packet, rfl⟩
  | error error =>
    refine absurd ?_ (h ⟨file.name, index, .format error⟩)
    have hnumbered : (.error error, index) ∈ file.packets.zipIdx :=
      List.mem_zipIdx_iff_getElem?.mpr hentry
    rw [fileEvents, eventsFrom, List.drop_zero]
    exact List.mem_flatMap.mpr ⟨_, hnumbered, List.mem_singleton.mpr rfl⟩

/-- **A trace as tracers write it**: all packets are sound, time does not run backwards within a file,
and no event of a packet takes place after the end that the packet gives. -/
structure Chronological (trace : Trace) : Prop where
  clean : ∀ file ∈ trace.files, Queue.Clean (trace.fileEvents file)
  ascending : ∀ file ∈ trace.files, Queue.Ascending Event.timestamp (trace.fileEvents file)
  stops : ∀ file ∈ trace.files, ∀ (index : ℕ) (packet : Packet) (stop : Instant) (event : Event),
    file.packets[index]? = some (.ok packet) → packet.stop = some stop →
      .ok event ∈ trace.entryEvents file index (.ok packet) → event.timestamp ≤ stop.nanoseconds

/-- Whether a result of an entry of the index of a file is no event behind the end of the packet. -/
def keepsStop : Except FormatError Packet → Except TraceError Event → Bool
  | .ok packet, .ok event => packet.stop.all (event.timestamp ≤ ·.nanoseconds)
  | _, _ => true

lemma chronological_iff (trace : Trace) :
    trace.Chronological ↔ ∀ file ∈ trace.files,
      Queue.Clean (trace.fileEvents file) ∧
      Queue.Ascending Event.timestamp (trace.fileEvents file) ∧
      ∀ entry ∈ file.packets.zipIdx, ∀ result ∈ trace.entryEvents file entry.2 entry.1,
        keepsStop entry.1 result = true := by
  constructor
  · rintro ⟨hclean, hasc, hstops⟩ file hfile
    refine ⟨hclean file hfile, hasc file hfile, ?_⟩
    rintro ⟨entry, index⟩ hentry result hresult
    rw [List.mem_zipIdx_iff_getElem?] at hentry
    cases entry with
    | error error => rfl
    | ok packet =>
      cases result with
      | error error => rfl
      | ok event =>
        refine Option.all_eq_true _ _ |>.mpr fun stop hstop => ?_
        have hle := hstops file hfile index packet stop event hentry hstop hresult
        exact decide_eq_true hle
  · intro h
    refine ⟨fun file hfile => (h file hfile).1, fun file hfile => (h file hfile).2.1, ?_⟩
    intro file hfile index packet stop event hentry hstop hevent
    have hkeeps := (h file hfile).2.2 (.ok packet, index)
      (List.mem_zipIdx_iff_getElem?.mpr hentry) (.ok event) hevent
    simpa [keepsStop, hstop] using hkeeps

instance (trace : Trace) : Decidable trace.Chronological :=
  decidable_of_iff _ (chronological_iff trace).symm

/-- No packet before the one at which the file is started has events at the given nanosecond or
later. -/
lemma Chronological.lt_of_mem_before (h : trace.Chronological) (hfile : file ∈ trace.files)
    {nanoseconds : ℕ} {event : Event}
    (hmem : .ok event ∈ trace.indexEvents file 0 (file.packets.take (file.packetAt nanoseconds))) :
    event.timestamp < nanoseconds := by
  obtain ⟨⟨entry, index⟩, hentry, hevent⟩ := List.mem_flatMap.mp hmem
  rw [List.mem_zipIdx_iff_getElem?, List.getElem?_take] at hentry
  have hlt : index < file.packetAt nanoseconds := by
    by_contra hge
    rw [if_neg hge] at hentry
    cases hentry
  rw [if_pos hlt] at hentry
  obtain ⟨packet, rfl⟩ := packet_of_clean (h.clean file hfile) hentry
  have hends : packet.endsAtOrAfter nanoseconds = false := by
    obtain ⟨hindex, hget⟩ := List.getElem?_eq_some_iff.mp hentry
    have hnot := List.not_of_lt_findIdx hlt
    rw [hget] at hnot
    exact hnot
  cases hstop : packet.stop with
  | none => simp [Packet.endsAtOrAfter, hstop] at hends
  | some stop =>
    have hle := h.stops file hfile index packet stop event hentry hstop hevent
    have hearly : stop.nanoseconds < nanoseconds := by
      simpa [Packet.endsAtOrAfter, hstop] using hends
    omega

/-- What is left of a file behind the packets and events that are skipped are its events at the given
nanosecond or later. -/
lemma Chronological.dropBelow_eventsFrom (h : trace.Chronological) (hfile : file ∈ trace.files)
    (nanoseconds : ℕ) :
    Queue.dropBelow Event.timestamp nanoseconds
        (trace.eventsFrom file (file.packetAt nanoseconds)) =
      (trace.fileEvents file).filter
        (Queue.keeps fun event => nanoseconds ≤ event.timestamp) := by
  have hbefore : (trace.indexEvents file 0 (file.packets.take (file.packetAt nanoseconds))).filter
      (Queue.keeps fun event => nanoseconds ≤ event.timestamp) = [] := by
    refine List.filter_eq_nil_iff.mpr fun result hmem => ?_
    cases result with
    | ok event =>
      have hlt := h.lt_of_mem_before hfile hmem
      simpa [Queue.keeps] using hlt
    | error error =>
      refine absurd ?_ (h.clean file hfile error)
      rw [fileEvents_eq_append trace file (file.packetAt nanoseconds)]
      exact List.mem_append_left _ hmem
  have hasc := ascending_eventsFrom (h.ascending file hfile) (file.packetAt nanoseconds)
  have hclean := clean_eventsFrom (h.clean file hfile) (file.packetAt nanoseconds)
  rw [fileEvents_eq_append trace file (file.packetAt nanoseconds), List.filter_append, hbefore,
    List.nil_append]
  exact Queue.dropBelow_eq_filter hasc hclean

end Trace

/-- Skipping takes events from the start of what a file gives. -/
lemma FileReader.pending_skipBelow {trace : Trace} {c : FileReader} (hc : c.Settled trace)
    (nanoseconds : ℕ) :
    (c.skipBelow trace nanoseconds).pending trace =
      Queue.dropBelow Event.timestamp nanoseconds (c.pending trace) := by
  fun_induction skipBelow trace nanoseconds c with
  | case1 c event hhead hlt ih =>
    rw [ih (settled_fill trace c), pending_fill, pending_of_event hhead,
      Queue.dropBelow_ok_of_lt hlt]
  | case2 c event hhead hge =>
    rw [pending_of_event hhead, Queue.dropBelow_ok_of_le (Nat.le_of_not_lt hge)]
  | case3 c error hhead => rw [pending_of_failed hhead, Queue.dropBelow_error]
  | case4 c hhead =>
    rw [pending_of_exhausted hc hhead]
    rfl

/-! ## All files -/

namespace TraceReader

variable {trace : Trace} {r : TraceReader}

/-- **What a reader has seen before does not count** for what it gives after seeking. -/
theorem queues_seek (hr : r.Sound trace) (nanoseconds : ℕ) :
    (r.seek nanoseconds).queues = trace.files.map fun file =>
      Queue.dropBelow Event.timestamp nanoseconds
        (trace.eventsFrom file (file.packetAt nanoseconds)) := by
  obtain ⟨rfl, hfiles, -⟩ := hr
  rw [← hfiles, queues, seek, List.map_map, List.map_map]
  refine List.map_congr_left fun c _ => ?_
  have hsettled : (c.restart r.trace (c.file.packetAt nanoseconds)).Settled r.trace :=
    FileReader.settled_fill r.trace _
  simp only [Function.comp_apply, FileReader.seek]
  rw [FileReader.pending_skipBelow hsettled, FileReader.pending_restart]

/-- **Seeking skips exactly the earlier events.**  In a chronological trace a reader that is sent to
a point in time, from whatever state, gives what a fresh reader gives, in the same order, without the
events before that point. -/
theorem drains_seek (htrace : trace.Chronological) (hr : Reachable trace r) (nanoseconds : ℕ) :
    ∃ items last last', trace.reader.Drains items last ∧
      (r.seek nanoseconds).Drains
        (items.filter fun item => Queue.keeps (nanoseconds ≤ ·.timestamp) item.1) last' := by
  have hsettled := (sound_reader trace).settled
  obtain ⟨items, last, hdrains⟩ := exists_drains hsettled
  have hmerges := hdrains.merges hsettled
  rw [Trace.queues_reader] at hmerges
  have hfilter := hmerges.filter (nanoseconds ≤ ·.timestamp)
    (fun q hq => by
      obtain ⟨file, hfile, rfl⟩ := List.mem_map.mp hq
      exact htrace.ascending file hfile)
    (fun q hq => by
      obtain ⟨file, hfile, rfl⟩ := List.mem_map.mp hq
      exact htrace.clean file hfile)
  have hqueues : (r.seek nanoseconds).queues = (trace.files.map trace.fileEvents).map
      (List.filter (Queue.keeps fun event => nanoseconds ≤ event.timestamp)) := by
    rw [queues_seek hr.sound, List.map_map]
    exact List.map_congr_left fun file hfile => htrace.dropBelow_eventsFrom hfile nanoseconds
  rw [← hqueues] at hfilter
  obtain ⟨last', hdrains'⟩ := drains_of_merges (hr.sound.seek nanoseconds).settled hfilter
  exact ⟨items, last, last', hdrains, hdrains'⟩

theorem drains_seek_lossy :
    Trace.lossy.Chronological ∧
      ∃ items last last', Trace.lossy.reader.Drains items last ∧
        ((Trace.lossy.reader.advance.2.seek 9).advance.2.takeEvent.2.seek 4).Drains
          (items.filter fun item => Queue.keeps (4 ≤ ·.timestamp) item.1) last' :=
  have htrace : Trace.lossy.Chronological := by decide +kernel
  ⟨htrace, drains_seek htrace (Reachable.fresh.advance.seek 9).advance.takeEvent 4⟩

/-! ## Events from before -/

/-- The reader that is moved on a number of times, over errors and beyond the end. -/
def movedOn (r : TraceReader) : ℕ → TraceReader
  | 0 => r
  | count + 1 => r.advance.2.movedOn count

/-- The current event is the one that was given last. -/
lemma current_movedOn {items : List (Except TraceError Event × ℕ)} {last : TraceReader}
    (h : r.Drains items last) (count : ℕ) :
    (r.movedOn (count + 1)).current = items[count]?.bind (·.1.toOption) := by
  induction count generalizing r items last with
  | zero =>
    change r.advance.2.current = _
    have hnext := h.next?
    cases items with
    | nil =>
      rw [advance, hnext]
      rfl
    | cons item items =>
      obtain ⟨result, i⟩ := item
      rw [advance, hnext]
      cases result <;> rfl
  | succ count ih =>
    obtain ⟨_, hrest⟩ := h.exists_tail
    rw [movedOn, ih hrest, List.getElem?_tail]

/-- The events that become current are those in the queues. -/
lemma exists_current_iff (hr : r.Settled) (hcurrent : r.current = none) (event : Event) :
    (∃ count, (r.movedOn count).current = some event) ↔ ∃ q ∈ r.queues, .ok event ∈ q := by
  obtain ⟨items, last, hdrains⟩ := exists_drains hr
  have hmerges := hdrains.merges hr
  constructor
  · rintro ⟨count, hcount⟩
    cases count with
    | zero =>
      rw [movedOn, hcurrent] at hcount
      cases hcount
    | succ count =>
      rw [current_movedOn hdrains] at hcount
      obtain ⟨⟨result, i⟩, hitem, hresult⟩ := Option.bind_eq_some_iff.mp hcount
      cases result with
      | error error => cases hresult
      | ok event' =>
        cases hresult
        obtain ⟨q, hq, hmem⟩ := hmerges.mem_queue (List.mem_of_getElem? hitem)
        exact ⟨q, List.mem_of_getElem? hq, hmem⟩
  · rintro ⟨q, hq, hmem⟩
    obtain ⟨i, hi⟩ := List.mem_iff_getElem?.mp hq
    rw [← hmerges.results_eq hi] at hmem
    obtain ⟨item, hitem, hresult⟩ := List.mem_map.mp hmem
    obtain ⟨count, hcount⟩ := List.mem_iff_getElem?.mp (List.mem_filter.mp hitem).1
    refine ⟨count + 1, ?_⟩
    rw [current_movedOn hdrains, hcount, Option.bind_some, hresult]
    rfl

/-- What has been skipped is not seen again, and what has not been skipped is seen. -/
lemma exists_current_seek_iff (hr : r.Sound trace) (nanoseconds : ℕ) (event : Event) :
    (∃ count, ((r.seek nanoseconds).movedOn count).current = some event) ↔
      ∃ file ∈ trace.files, .ok event ∈ Queue.dropBelow Event.timestamp nanoseconds
        (trace.eventsFrom file (file.packetAt nanoseconds)) := by
  rw [exists_current_iff (hr.seek nanoseconds).settled rfl, queues_seek hr]
  simp only [List.mem_map, exists_exists_and_eq_and]

/-- **When seeking lets an earlier event through.**  Time does not run backwards within any file, and
the reader may have been in any state.  Then there is an event from before the given nanosecond among
those that it gives after seeking if and only if some file has such an event behind an error, in the
packets from the one on at which the file is started. -/
theorem early_event_iff (hr : Reachable trace r)
    (hasc : ∀ file ∈ trace.files, Queue.Ascending Event.timestamp (trace.fileEvents file))
    (nanoseconds : ℕ) :
    (∃ count event, ((r.seek nanoseconds).movedOn count).current = some event ∧
        event.timestamp < nanoseconds) ↔
      ∃ file ∈ trace.files, ∃ before error after event,
        trace.eventsFrom file (file.packetAt nanoseconds) = before ++ .error error :: after ∧
          .ok event ∈ after ∧ event.timestamp < nanoseconds := by
  constructor
  · rintro ⟨count, event, hcurrent, hlt⟩
    obtain ⟨file, hfile, hmem⟩ :=
      (exists_current_seek_iff hr.sound nanoseconds event).mp ⟨count, hcurrent⟩
    have hfrom := Trace.ascending_eventsFrom (hasc file hfile) (file.packetAt nanoseconds)
    obtain ⟨before, error, after, hsplit, hafter⟩ := (Queue.mem_dropBelow_iff hfrom hlt).mp hmem
    exact ⟨file, hfile, before, error, after, event, hsplit, hafter, hlt⟩
  · rintro ⟨file, hfile, before, error, after, event, hsplit, hafter, hlt⟩
    have hfrom := Trace.ascending_eventsFrom (hasc file hfile) (file.packetAt nanoseconds)
    have hmem := (Queue.mem_dropBelow_iff hfrom hlt).mpr ⟨before, error, after, hsplit, hafter⟩
    obtain ⟨count, hcurrent⟩ :=
      (exists_current_seek_iff hr.sound nanoseconds event).mpr ⟨file, hfile, hmem⟩
    exact ⟨count, event, hcurrent, hlt⟩

lemma ascending_broken : ∀ file ∈ Trace.broken.files,
    Queue.Ascending Event.timestamp (Trace.broken.fileEvents file) := by decide +kernel

/-- Behind the broken packet the tick at 3 is given, though the reader was sent to 5. -/
lemma tick_broken : ∃ event, ((Trace.broken.reader.seek 5).movedOn 2).current = some event ∧
    event.timestamp = 3 := by
  have htick : ((Trace.broken.reader.seek 5).movedOn 2).current.map Event.timestamp = some 3 := by
    decide +kernel
  exact Option.map_eq_some_iff.mp htick

theorem early_event_broken :
    (∃ count event, ((Trace.broken.reader.seek 5).movedOn count).current = some event ∧
        event.timestamp < 5) ∧
      ∃ file ∈ Trace.broken.files, ∃ before error after event,
        Trace.broken.eventsFrom file (file.packetAt 5) = before ++ .error error :: after ∧
          .ok event ∈ after ∧ event.timestamp < 5 := by
  obtain ⟨event, hcurrent, htimestamp⟩ := tick_broken
  have hearly : ∃ count event, ((Trace.broken.reader.seek 5).movedOn count).current = some event ∧
      event.timestamp < 5 := ⟨2, event, hcurrent, by omega⟩
  exact ⟨hearly, (early_event_iff Reachable.fresh ascending_broken 5).mp hearly⟩

/-- Seeking does not always skip all earlier events. -/
theorem not_forall_le_timestamp_of_seek :
    ¬ ∀ (metadata : Metadata) (sources : List (String × ByteArray)) (options : ReadOptions)
        (trace : Trace) (r : TraceReader),
      Trace.ofSources metadata sources options = .ok trace → Reachable trace r →
      (∀ file ∈ trace.files, Queue.Ascending Event.timestamp (trace.fileEvents file)) →
      ∀ nanoseconds count event,
        ((r.seek nanoseconds).movedOn count).current = some event →
          nanoseconds ≤ event.timestamp := by
  intro hclaim
  obtain ⟨event, hcurrent, htimestamp⟩ := tick_broken
  have hle := hclaim _ [("ticks", ⟨#[24, 24, 1, 40, 24, 0, 24, 24, 3]⟩)] {} Trace.broken _ rfl .fresh
    ascending_broken 5 2 event hcurrent
  omega

end TraceReader

end CommonTrace
