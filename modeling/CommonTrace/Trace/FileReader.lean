import CommonTrace.Proofs.Packet.Progress
import CommonTrace.Trace.FileEvents

/-!
# Reading a file

A `FileReader` goes through one file of a trace and holds the result that comes next in its head: an
event, an error, or the end of the file.  The head is filled from the packet that is open.  When the
packet has come to its end the next one is opened, so one filling may pass over several packets that
hold no events.  An error closes the packet in which it stands.

What the reader is going to give is `FileReader.pending`.  Filling the head takes the first of it
away (`FileReader.pending_fill`), which is why a reader that skips the events before a point in time
comes to an end.
-/

namespace CommonTrace

/-- What a file offers next.  An error stands in the place of a packet or of the rest of one. -/
inductive FileHead where
  | event (event : Event)
  | failed (error : TraceError)
  | exhausted

namespace FileHead

def result? : FileHead → Option (Except TraceError Event)
  | .event e => some (.ok e)
  | .failed e => some (.error e)
  | .exhausted => none

/-- Whether the program stops while it fills the head. -/
def stops : FileHead → Bool
  | .failed error => error.fault.stops
  | .event _ | .exhausted => false

end FileHead

/-- A file of which some results have been read: the number of the packet that is opened next,
what is left of the packet that is open, and what comes next. -/
structure FileReader where
  file : StreamFile
  next : Nat
  packet : Option PacketReader
  head : FileHead

namespace FileReader

variable (trace : Trace)

/-- The reader whose head is the next result of an open packet, unless the packet has come to its
end. -/
def readPacket? (file : StreamFile) (next : Nat) (packet : PacketReader) : Option FileReader :=
  match packet.next trace.metadata trace.options.lengthLimit with
  | (some (.ok event), packet) => some { file, next, packet := some packet, head := .event event }
  | (some (.error error), packet) =>
    some {
      file, next
      packet := none
      head := .failed ⟨file.name, packet.packet.index, .decode error⟩ }
  | (none, _) => none

/-- The reader whose head is the first result of the given packets, which start with the packet
`next` of the file. -/
def openPackets (file : StreamFile) (next : Nat) : PacketIndex → FileReader
  | [] => { file, next, packet := none, head := .exhausted }
  | .error error :: _ =>
    { file
      next := next + 1
      packet := none
      head := .failed ⟨file.name, next, .format error⟩ }
  | .ok packet :: packets =>
    match PacketReader.ofPacket file.data packet with
    | .error error =>
      { file
        next := next + 1
        packet := none
        head := .failed ⟨file.name, next, .decode (.read error)⟩ }
    | .ok reader =>
      (readPacket? trace file (next + 1) reader).getD (openPackets file (next + 1) packets)

/-- The reader with the next result in its head.  What was there before is dropped. -/
def fill (c : FileReader) : FileReader :=
  (c.packet.bind (readPacket? trace c.file c.next)).getD
    (openPackets trace c.file c.next (c.file.packets.drop c.next))

/-- The reader that starts anew at the given packet of its file. -/
def restart (c : FileReader) (start : Nat) : FileReader :=
  fill trace { c with next := start, packet := none }

def ofFile (file : StreamFile) : FileReader :=
  restart trace { file, next := 0, packet := none, head := .exhausted } 0

/-! ## What is left -/

def upcoming (c : FileReader) : List (Except TraceError Event) :=
  c.packet.elim [] (trace.packetEvents c.file) ++ trace.eventsFrom c.file c.next

/-- What the reader is going to give. -/
def pending (c : FileReader) : List (Except TraceError Event) :=
  c.head.result?.toList ++ c.upcoming trace

variable {trace} {file : StreamFile} {next : Nat}

theorem pending_of_event {c : FileReader} {event : Event} (h : c.head = .event event) :
    c.pending trace = .ok event :: c.upcoming trace := by
  rw [pending, h]
  rfl

theorem pending_of_failed {c : FileReader} {error : TraceError} (h : c.head = .failed error) :
    c.pending trace = .error error :: c.upcoming trace := by
  rw [pending, h]
  rfl

theorem upcoming_of_closed {c : FileReader} (h : c.packet = none) :
    c.upcoming trace = trace.eventsFrom c.file c.next := by
  rw [upcoming, h]
  rfl

theorem pending_of_readPacket? {packet : PacketReader} {c : FileReader}
    (h : readPacket? trace file next packet = some c) :
    c.file = file ∧
      c.pending trace = trace.packetEvents file packet ++ trace.eventsFrom file next := by
  unfold readPacket? at h
  unfold Trace.packetEvents
  rw [PacketReader.toList_eq]
  split at h
  · rename_i event packet' hnext
    cases h
    refine ⟨rfl, ?_⟩
    rw [hnext, pending_of_event rfl, upcoming, Option.elim_some, Trace.packetEvents,
      PacketReader.packet_of_next hnext]
    rfl
  · rename_i error packet' hnext
    cases h
    refine ⟨rfl, ?_⟩
    rw [hnext, pending_of_failed rfl, upcoming_of_closed rfl]
    dsimp only
    rw [PacketReader.toList_of_next_error hnext, PacketReader.packet_of_next hnext]
    rfl
  · cases h

theorem packetEvents_of_readPacket?_eq_none {packet : PacketReader}
    (h : readPacket? trace file next packet = none) : trace.packetEvents file packet = [] := by
  unfold readPacket? at h
  split at h
  · cases h
  · cases h
  · rename_i hnext
    rw [Trace.packetEvents, PacketReader.toList_eq, hnext]
    rfl

/-- Opening packets until one gives a result takes nothing of what they give. -/
theorem pending_openPackets {packets : PacketIndex} (h : file.packets.drop next = packets) :
    (openPackets trace file next packets).file = file ∧
      (openPackets trace file next packets).pending trace =
        trace.indexEvents file next packets := by
  induction packets generalizing next with
  | nil =>
    refine ⟨rfl, ?_⟩
    simp only [pending, upcoming, openPackets, FileHead.result?, Trace.eventsFrom, h]
    rfl
  | cons entry packets ih =>
    have hrest : file.packets.drop (next + 1) = packets := by
      rw [← List.drop_drop, h]
      rfl
    have hevents : trace.indexEvents file next (entry :: packets) =
        trace.entryEvents file next entry ++ trace.eventsFrom file (next + 1) := by
      simp only [Trace.indexEvents, Trace.eventsFrom, List.zipIdx_cons, List.flatMap_cons, hrest]
    rw [hevents]
    cases entry with
    | error error =>
      refine ⟨rfl, ?_⟩
      rw [openPackets, pending_of_failed rfl, upcoming_of_closed rfl]
      rfl
    | ok packet =>
      cases hopen : PacketReader.ofPacket file.data packet with
      | error error =>
        simp only [openPackets, Trace.entryEvents, hopen, true_and]
        rw [pending_of_failed rfl, upcoming_of_closed rfl]
        rfl
      | ok reader =>
        simp only [openPackets, Trace.entryEvents, hopen]
        cases hread : readPacket? trace file (next + 1) reader with
        | some c => exact pending_of_readPacket? hread
        | none =>
          have hpending := (ih hrest).2
          refine ⟨(ih hrest).1, ?_⟩
          rw [Option.getD_none, hpending, packetEvents_of_readPacket?_eq_none hread,
            Trace.eventsFrom, hrest, List.nil_append]

theorem file_fill (trace : Trace) (c : FileReader) : (c.fill trace).file = c.file := by
  unfold fill
  cases hread : c.packet.bind (readPacket? trace c.file c.next) with
  | none => exact (pending_openPackets rfl).1
  | some c' =>
    obtain ⟨packet, -, hread⟩ := Option.bind_eq_some_iff.mp hread
    exact (pending_of_readPacket? hread).1

/-- Filling the head takes away what was there, and nothing else. -/
theorem pending_fill (trace : Trace) (c : FileReader) :
    (c.fill trace).pending trace = c.upcoming trace := by
  unfold fill upcoming
  cases hpacket : c.packet with
  | none => exact (pending_openPackets rfl).2
  | some packet =>
    dsimp only [Option.bind_some, Option.elim_some]
    cases hread : readPacket? trace c.file c.next packet with
    | none =>
      rw [Option.getD_none, packetEvents_of_readPacket?_eq_none hread]
      exact (pending_openPackets rfl).2
    | some c' => exact (pending_of_readPacket? hread).2

@[simp] theorem file_restart (trace : Trace) (c : FileReader) (start : Nat) :
    (c.restart trace start).file = c.file :=
  file_fill trace _

theorem pending_restart (trace : Trace) (c : FileReader) (start : Nat) :
    (c.restart trace start).pending trace = trace.eventsFrom c.file start := by
  unfold restart
  rw [pending_fill]
  rfl

/-! ## Skipping -/

variable (trace)

/-- The reader behind the events before the given nanosecond, as far as they come before anything
else. -/
def skipBelow (nanoseconds : Nat) (c : FileReader) : FileReader :=
  match _ : c.head with
  | .event event =>
    if event.timestamp < nanoseconds then skipBelow nanoseconds (c.fill trace) else c
  | .failed _ | .exhausted => c
termination_by (c.pending trace).length
decreasing_by
  rw [pending_fill, pending_of_event ‹_›]
  exact Nat.lt_add_one _

/-- The reader at the first event of its file at the given nanosecond or later.  Packets that end
before are not opened. -/
def seek (nanoseconds : Nat) (c : FileReader) : FileReader :=
  skipBelow trace nanoseconds (c.restart trace (c.file.packetAt nanoseconds))

end FileReader

end CommonTrace
