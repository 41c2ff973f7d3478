import CommonTrace.Proofs.Packet.Errors
import CommonTrace.Proofs.Trace.Seek

/-!
# Errors of traces and readers

What goes wrong in a file goes wrong in its index or in a reader of one of its packets.  So an error with which
no block of the metadata can be decoded is not reported of a file (`Trace.not_fault_of_fileEvents`).

A reader holds parts of its files: packets that are open, and results that are offered.  Whatever has been done
with it, what it is going to give of a file is among what the file gives on its own
(`TraceReader.Reachable.pending_subset`).  So it reports no other errors than those of its files
(`TraceReader.Reachable.exists_of_error`).
-/

namespace CommonTrace

/-- The error of a decoding for which a packet could not be read to its end, if it was for one. -/
def ReadFault.decodeError? : ReadFault → Option DecodeError
  | .format (.decode error) | .decode error => some error
  | .format _ => none

lemma ReadFault.eq_decode_of_mem {error : FormatError} {e : DecodeError}
    (h : e ∈ (format error).decodeError?) : error = .decode e := by
  cases error with
  | decode error =>
    cases h
    rfl
  | _ => cases h

/-- The program stops at a fault only where it stops at the error of a decoding from which the fault comes. -/
lemma ReadFault.not_stops {fault : ReadFault} (h : ∀ e ∈ fault.decodeError?, ¬e.stops = true) :
    ¬fault.stops = true := by
  cases fault with
  | decode error => exact h error rfl
  | format error =>
    cases error with
    | decode error => exact h error rfl
    | _ => exact Bool.false_ne_true

/-! ## What a file gives -/

namespace Trace

variable {trace : Trace} {file : StreamFile} {error : TraceError}

/-- The packets of the files have been located by the metadata and the options of the trace. -/
def Located (trace : Trace) : Prop :=
  ∀ file ∈ trace.files, file.packets = PacketIndex.ofFile trace.metadata trace.options file.data

lemma located_of_ofFiles {place : String} {metadata : Metadata} {files : List (String × ByteArray)}
    {options : ReadOptions} (h : ofFiles place metadata files options = .ok trace) :
    trace.metadata = metadata ∧ trace.Located := by
  unfold ofFiles at h
  split at h
  · cases h
  · cases h
    refine ⟨rfl, fun file hfile => ?_⟩
    obtain ⟨_, -, rfl⟩ := List.mem_map.mp hfile
    rfl

/-- An event that a file gives is one of a packet. -/
lemma exists_packet_of_mem_fileEvents {event : Event} (hmem : .ok event ∈ trace.fileEvents file) :
    ∃ index packet, file.packets[index]? = some (.ok packet) ∧
      .ok event ∈ trace.entryEvents file index (.ok packet) := by
  obtain ⟨⟨entry, index⟩, hentry, hmem⟩ := List.mem_flatMap.mp hmem
  cases entry with
  | error error => cases List.mem_singleton.mp hmem
  | ok packet => exact ⟨index, packet, List.mem_zipIdx_iff_getElem?.mp hentry, hmem⟩

/-- An event of a packet is one that a reader of the packet gives. -/
lemma exists_reader_of_mem_entryEvents {event : Event} {index : ℕ} {packet : Packet}
    (hmem : .ok event ∈ trace.entryEvents file index (.ok packet)) :
    ∃ reader, PacketReader.ofPacket file.data packet = .ok reader ∧
      .ok event ∈ reader.toList trace.metadata trace.options.lengthLimit := by
  unfold entryEvents at hmem
  dsimp only at hmem
  split at hmem
  · cases List.mem_singleton.mp hmem
  · rename_i reader hopen
    obtain ⟨result, hresult, hevent⟩ := List.mem_map.mp hmem
    cases result with
    | error error => cases hevent
    | ok event' =>
      cases hevent
      exact ⟨reader, hopen, hresult⟩

variable {fault : DecodeError → Prop}

lemma not_fault_of_packetEvents (hfault : DecodeError.FromReads fault) {packet : PacketReader}
    (h : LayoutsAvoid trace.options.lengthLimit fault packet.packet.stream.layouts)
    (hmem : .error error ∈ trace.packetEvents file packet) : ∀ e ∈ error.fault.decodeError?, ¬fault e := by
  obtain ⟨result, hresult, heq⟩ := List.mem_map.mp hmem
  cases result with
  | ok event => cases heq
  | error error' =>
    cases heq
    rintro _ ⟨⟩
    exact PacketReader.not_fault_of_mem_toList hfault h hresult

lemma not_fault_of_entryEvents (hfault : DecodeError.FromReads fault) {index : ℕ} {packet : Packet}
    (h : LayoutsAvoid trace.options.lengthLimit fault packet.stream.layouts)
    (hmem : .error error ∈ trace.entryEvents file index (.ok packet)) :
    ∀ e ∈ error.fault.decodeError?, ¬fault e := by
  unfold entryEvents at hmem
  dsimp only at hmem
  split at hmem
  · rename_i hfail
    cases List.mem_singleton.mp hmem
    rintro _ ⟨⟩
    exact PacketReader.not_fault_of_ofPacket hfault hfail
  · rename_i reader hopen
    rw [← PacketReader.packet_of_ofPacket hopen] at h
    exact not_fault_of_packetEvents hfault h hmem

/-- **No file gives an error with which no block is decoded.** -/
theorem not_fault_of_fileEvents (hfault : DecodeError.FromReads fault)
    (h : LayoutsAvoid trace.options.lengthLimit fault trace.metadata.layouts) (hlocated : trace.Located)
    (hfile : file ∈ trace.files) (hmem : .error error ∈ trace.fileEvents file) :
    ∀ e ∈ error.fault.decodeError?, ¬fault e := by
  obtain ⟨⟨entry, index⟩, hentry, hmem⟩ := List.mem_flatMap.mp hmem
  have hindexed : entry ∈ file.packets := List.mem_of_getElem? (List.mem_zipIdx_iff_getElem?.mp hentry)
  rw [hlocated file hfile] at hindexed
  cases entry with
  | error broken =>
    cases List.mem_singleton.mp hmem
    intro e he
    obtain rfl := ReadFault.eq_decode_of_mem he
    exact PacketIndex.not_fault_of_ofFile h hindexed
  | ok packet =>
    obtain ⟨key, hstream⟩ := PacketIndex.exists_stream_of_ofFile hindexed
    exact not_fault_of_entryEvents hfault (h.ofStream hstream) hmem

end Trace

/-! ## What a reader holds -/

/-- What a reader is going to give of a file is among what the file gives on its own. -/
def FileReader.Faithful (trace : Trace) (c : FileReader) : Prop :=
  c.pending trace ⊆ trace.fileEvents c.file

namespace FileReader

variable {trace : Trace} {c : FileReader}

lemma Faithful.fill (h : c.Faithful trace) : (c.fill trace).Faithful trace := by
  rw [Faithful, pending_fill, file_fill]
  exact List.Subset.trans (List.subset_append_right _ _) h

lemma faithful_restart (trace : Trace) (c : FileReader) (start : ℕ) :
    (c.restart trace start).Faithful trace := by
  rw [Faithful, pending_restart, file_restart, Trace.fileEvents_eq_append trace c.file start]
  exact List.subset_append_right _ _

lemma faithful_seek (trace : Trace) (nanoseconds : ℕ) (c : FileReader) :
    (c.seek trace nanoseconds).Faithful trace :=
  skipBelow_induction nanoseconds (fun _ => Faithful.fill) (faithful_restart trace c _)

end FileReader

namespace TraceReader

variable {trace : Trace} {r : TraceReader}

/-- **A reader holds parts of its files**, whatever has been done before. -/
theorem Reachable.pending_subset (h : Reachable trace r) : ∀ c ∈ r.files, c.Faithful trace := by
  induction h with
  | fresh =>
    intro c hc
    obtain ⟨file, -, rfl⟩ := List.mem_map.mp hc
    exact FileReader.faithful_restart trace _ 0
  | @advance r h ih =>
    unfold TraceReader.advance
    split
    · exact ih
    · rename_i result i _
      have hfiles : ∀ c ∈ r.files.modify i (FileReader.fill r.trace), c.Faithful trace := by
        rw [h.sound.trace_eq]
        intro c hc
        obtain ⟨j, hj⟩ := List.mem_iff_getElem?.mp hc
        rw [List.getElem?_modify] at hj
        obtain ⟨c₀, hc₀, rfl⟩ := Option.map_eq_some_iff.mp hj
        have hbefore := ih c₀ (List.mem_of_getElem? hc₀)
        split
        · exact hbefore.fill
        · exact hbefore
      cases result <;> exact hfiles
  | takeEvent _ ih => exact ih
  | @seek r h nanoseconds ih =>
    intro c hc
    obtain ⟨c₀, -, rfl⟩ := List.mem_map.mp hc
    rw [h.sound.trace_eq]
    exact FileReader.faithful_seek trace nanoseconds c₀

/-- What a reader is going to give is given by one of its files. -/
lemma Reachable.exists_of_mem_pending (h : Reachable trace r) {c : FileReader} (hc : c ∈ r.files)
    {result : Except TraceError Event} (hmem : result ∈ c.pending trace) :
    ∃ file ∈ trace.files, result ∈ trace.fileEvents file := by
  refine ⟨c.file, ?_, h.pending_subset c hc hmem⟩
  rw [← h.sound.files_eq]
  exact List.mem_map_of_mem hc

/-- What has failed in a reader is an error of one of its files. -/
lemma Reachable.exists_of_failed (h : Reachable trace r) {c : FileReader} (hc : c ∈ r.files)
    {error : TraceError} (hhead : c.head = .failed error) :
    ∃ file ∈ trace.files, .error error ∈ trace.fileEvents file := by
  refine h.exists_of_mem_pending hc ?_
  rw [FileReader.pending_of_failed hhead]
  exact List.mem_cons_self

/-- What a reader reports is an error of one of its files. -/
lemma Reachable.exists_of_error (h : Reachable trace r) {error : TraceError}
    (herror : r.advance.1 = .error error) :
    ∃ file ∈ trace.files, .error error ∈ trace.fileEvents file := by
  unfold TraceReader.advance at herror
  split at herror
  · cases herror
  · rename_i result i hnext
    cases result with
    | ok event => cases herror
    | error error' =>
      cases herror
      cases hfault : r.fault? with
      | none =>
        rw [next?, hfault] at hnext
        obtain ⟨_, -, heq⟩ := Option.map_eq_some_iff.mp hnext
        cases heq
      | some fault =>
        rw [next?, hfault] at hnext
        cases hnext
        obtain ⟨c, hc, hhead, -⟩ := fault?_eq_some hfault
        exact h.exists_of_failed (List.mem_of_getElem? hc) hhead

end TraceReader

end CommonTrace
