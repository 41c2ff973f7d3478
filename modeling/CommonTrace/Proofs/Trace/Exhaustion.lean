import CommonTrace.Proofs.Packet.Calls
import CommonTrace.Proofs.Packet.Stops
import CommonTrace.Proofs.Trace.Errors

/-!
# Readers come to an end and stay there

A reader of a trace may be moved on for ever, from whatever state it has got into.  From some call on
it says that there is nothing more, and before that it never does: with each call it gives one of the
finitely many results that are left (`TraceReader.next?_movedOn`).

Those results come out of the packets.  What bounds them there is the course of each packet
(`PacketReader.Course`): an event takes at least one bit of the content.

Reading comes to its end if the program does not stop before, and it does not where what is computed on the way
fits its words (`TraceReader.comesToEnd`).
-/

namespace CommonTrace

namespace TraceReader

variable {trace : Trace} {r : TraceReader}

/-- A reader says that there is nothing more if and only if it offers nothing. -/
lemma fst_advance_eq_iff (r : TraceReader) : r.advance.1 = .ok false ↔ r.next? = none := by
  constructor
  · intro h
    exact next?_of_advance (Prod.ext h rfl)
  · intro h
    rw [advance_of_next?_eq_none h]

/-- After a number of calls a reader offers what comes at that place among the results that were
left, and nothing behind them. -/
lemma next?_movedOn {items : List (Except TraceError Event × ℕ)} {last : TraceReader}
    (h : r.Drains items last) (n : ℕ) : (r.movedOn n).next? = items[n]? := by
  induction n generalizing r items last with
  | zero =>
    rw [movedOn, h.next?]
    exact List.head?_eq_getElem?
  | succ n ih =>
    obtain ⟨_, hrest⟩ := h.exists_tail
    rw [movedOn, ih hrest, List.getElem?_tail]

/-- The end comes after as many calls as there are results left. -/
lemma exists_forall_movedOn_iff (hr : r.Settled) :
    ∃ count, ∀ n, (r.movedOn n).advance.1 = .ok false ↔ count ≤ n := by
  obtain ⟨items, last, hdrains⟩ := exists_drains hr
  refine ⟨items.length, fun n => ?_⟩
  rw [fst_advance_eq_iff, next?_movedOn hdrains, List.getElem?_eq_none_iff]

/-! ## Nothing stops the program -/

/-- The program does not stop while it reads a trace with less than `2 ^ 61` elements allowed. -/
lemma Reachable.stops_eq_false (hr : Reachable trace r) (hlocated : trace.Located)
    (hlimit : trace.options.lengthLimit < twoPow 61) : r.stops = false := by
  unfold stops
  rw [List.any_eq_false]
  intro c hc
  cases hhead : c.head with
  | failed error =>
    obtain ⟨file, hfile, hmem⟩ := hr.exists_of_failed hc hhead
    have hlayouts := layoutsAvoid_stops hlimit trace.metadata.layouts
    exact ReadFault.not_stops
      (Trace.not_fault_of_fileEvents DecodeError.fromReads_stops hlayouts hlocated hfile hmem)
  | event event => exact Bool.false_ne_true
  | exhausted => exact Bool.false_ne_true

/-- **Reading comes to an end.**  A reader of a trace, in whatever state, says after finitely many calls that there
is nothing more, and it goes on saying so; it never says so before, and the program does not stop on the way,
nor would it if it checked the exponents of floating point numbers.  A reader of a packet gives at most one
marker, then at most as many events as there are bits of content behind the head, each of which ends behind the
bit at which it started and not behind the content, then at most one error, and then nothing for ever. -/
structure ComesToEnd (trace : Trace) : Prop where
  runs : ∀ r, Reachable trace r → r.stops = false
  powers : trace.metadata.PowersFit
  ends : ∀ r, Reachable trace r → ∃ count, ∀ n, (r.movedOn n).advance.1 = .ok false ↔ count ≤ n
  course : ∀ file packet r, PacketReader.ofPacket file packet = .ok r →
    ∃ markers events faults, r.Course trace.metadata trace.options.lengthLimit markers events faults ∧
      ∀ error ∈ faults, error.stops = false

/-- **Reading a trace comes to an end** where what is computed on the way fits its words. -/
theorem comesToEnd (hlocated : trace.Located) (hwords : trace.metadata.ReadsInWords trace.options) :
    ComesToEnd trace where
  runs _ hr := hr.stops_eq_false hlocated hwords.texts
  powers := hwords.powersFit
  ends _ hr := exists_forall_movedOn_iff hr.sound.settled
  course file packet r h := by
    obtain ⟨events, faults, hcourse⟩ :=
      PacketReader.exists_course trace.metadata trace.options.lengthLimit h
    refine ⟨_, events, faults, hcourse, fun error hmem => Bool.eq_false_iff.mpr ?_⟩
    have hgiven : .error error ∈ r.toList trace.metadata trace.options.lengthLimit := by
      rw [hcourse.toList_eq]
      exact List.mem_append_right _ (List.mem_map_of_mem hmem)
    exact PacketReader.not_fault_of_mem_toList DecodeError.fromReads_stops
      (layoutsAvoid_stops hwords.texts _) hgiven

end TraceReader

section Example

lemma Trace.located_bytewise (context : List String) (bytes : List UInt8) : (bytewise context bytes).Located :=
  List.forall_mem_singleton.mpr rfl

/-- A reader of sample data that has been moved on, sent to some time and moved on again comes to its end without
stopping the program. -/
theorem TraceReader.comesToEnd_lossy :
    (Trace.lossy.reader.advance.2.seek 4).advance.2.stops = false ∧
      (∃ count, ∀ n, ((Trace.lossy.reader.advance.2.seek 4).advance.2.movedOn n).advance.1 =
        .ok false ↔ count ≤ n) ∧
      ∃ file ∈ Trace.lossy.files, ∃ packet ∈ file.located, 0 < packet.eventsLost ∧
        ∃ r markers events faults, PacketReader.ofPacket file.data packet = .ok r ∧
          r.Course Trace.lossy.metadata Trace.lossy.options.lengthLimit markers events faults := by
  have hfloats : Trace.lossy.metadata.layouts.flatMap FieldType.floats = [] := by decide +kernel
  have hwords : Trace.lossy.metadata.ReadsInWords Trace.lossy.options := ⟨by decide, by rw [hfloats]; nofun⟩
  have hlocated : Trace.lossy.Located := Trace.located_bytewise _ _
  have hends := comesToEnd hlocated hwords
  have hreads : ∃ file ∈ Trace.lossy.files, ∃ packet ∈ file.located, 0 < packet.eventsLost ∧
      (PacketReader.ofPacket file.data packet).toBool = true := by decide +kernel
  obtain ⟨file, hfile, packet, hpacket, hlost, hread⟩ := hreads
  have hreachable : Reachable Trace.lossy (Trace.lossy.reader.advance.2.seek 4).advance.2 :=
    (Reachable.fresh.advance.seek 4).advance
  refine ⟨hends.runs _ hreachable, hends.ends _ hreachable, file, hfile, packet, hpacket, hlost, ?_⟩
  cases hreader : PacketReader.ofPacket file.data packet with
  | error error =>
    rw [hreader] at hread
    cases hread
  | ok r =>
    obtain ⟨markers, events, faults, hall, -⟩ := hends.course file.data packet r hreader
    exact ⟨r, markers, events, faults, rfl, hall⟩

/-- A trace of one file, the events of which are texts with their lengths, where texts of any length are
allowed. -/
def Trace.ofTexts (data : ByteArray) : Trace :=
  let metadata := { Metadata.bytewise [] with
    streams := Dictionary.empty.insert 0 { StreamSchema.empty with
      anonymousEvent := some { EventSchema.named "said" with
        fields := some (.struct 8 FieldType.countedText) } } }
  { metadata
    files := [{ name := "texts", data, packets := PacketIndex.ofFile metadata .unlimited data }]
    options := .unlimited }

lemma Trace.located_ofTexts (data : ByteArray) : (ofTexts data).Located :=
  List.forall_mem_singleton.mpr rfl

/-- **A file may stop the program** where texts of `2 ^ 61` bytes are allowed: the program stops before a reader of
these eight bytes is made. -/
theorem TraceReader.not_forall_comesToEnd :
    (Trace.ofTexts ⟨#[0, 0, 0, 0, 0, 0, 0, 32]⟩).Located ∧
      (Trace.ofTexts ⟨#[0, 0, 0, 0, 0, 0, 0, 32]⟩).reader.stops = true ∧
      ¬∀ trace : Trace, trace.Located → ComesToEnd trace := by
  have hstops : (Trace.ofTexts ⟨#[0, 0, 0, 0, 0, 0, 0, 32]⟩).reader.stops = true := by decide +kernel
  refine ⟨Trace.located_ofTexts _, hstops, fun h => ?_⟩
  exact Bool.false_ne_true (((h _ (Trace.located_ofTexts _)).runs _ .fresh).symm.trans hstops)

end Example

end CommonTrace
