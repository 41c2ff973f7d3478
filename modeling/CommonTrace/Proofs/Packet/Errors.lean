import CommonTrace.Packet.Events
import CommonTrace.Proofs.Field.Errors
import CommonTrace.Proofs.Packet.Blocks
import CommonTrace.Proofs.Packet.Progress
import CommonTrace.Proofs.Schema.Parts

/-!
# Errors of packets and events

Nothing is decoded in a packet but blocks of the metadata.  So an error with which none of these blocks can be
decoded is reported neither by an index (`PacketIndex.not_fault_of_ofFile`) nor by a reader of a packet
(`PacketReader.not_fault_of_mem_toList`).  This holds of the kinds of errors with which reads fail, other than
for want of bits (`DecodeError.FromReads`).
-/

namespace CommonTrace

/-- None of the layouts is decoded with an error of the kind, as whatever block. -/
def LayoutsAvoid (limit : ℕ) (fault : DecodeError → Prop) (layouts : List FieldType) : Prop :=
  ∀ t ∈ layouts, ∀ block, (t.decodeBlock limit block).Avoids fault

section Layouts

variable {metadata : Metadata} {stream : StreamSchema} {limit : ℕ} {fault : DecodeError → Prop} {t : FieldType}

lemma Metadata.mem_layouts_of_stream {key : ℕ} (hstream : (key, stream) ∈ metadata.streams.entries)
    (ht : t ∈ stream.layouts) : t ∈ metadata.layouts := by
  refine List.mem_append_right _ (List.mem_flatMap.mpr ⟨stream, ?_, ht⟩)
  exact List.mem_map.mpr ⟨(key, stream), hstream, rfl⟩

lemma LayoutsAvoid.packetHeader (h : LayoutsAvoid limit fault metadata.layouts) (block : StaticScope) :
    ∀ t ∈ metadata.packetHeader, (t.decodeBlock limit block).Avoids fault :=
  fun _ ht => h _ (List.mem_append_left _ (Option.mem_toList.mpr ht)) block

lemma LayoutsAvoid.ofStream (h : LayoutsAvoid limit fault metadata.layouts) {key : ℕ}
    (hstream : (key, stream) ∈ metadata.streams.entries) : LayoutsAvoid limit fault stream.layouts :=
  fun _ ht => h _ (Metadata.mem_layouts_of_stream hstream ht)

end Layouts

section Packets

variable {metadata : Metadata} {options : ReadOptions} {limit : ℕ} {fault : DecodeError → Prop}
  {error : DecodeError}

/-! ## Header and context -/

namespace PacketHead

lemma avoids_decodeDeclared {block : StaticScope} {t : Option FieldType}
    (h : ∀ u ∈ t, (u.decodeBlock limit block).Avoids fault) : (decodeDeclared limit block t).Avoids fault := by
  cases t with
  | none => exact .pure none
  | some t => exact (h t rfl).map _

lemma error_of_run {α : Type} {step : DecodeM α} {s : DecodeState} {error : FormatError}
    (h : run step s = .error error) : ∃ e s', error = .decode e ∧ step s = .error e s' := by
  unfold run at h
  split at h
  · cases h
  · rename_i e s' hstep
    cases h
    exact ⟨e, s', rfl, hstep⟩

lemma checkMagic_ne_decode {magic : Option ℕ} : checkMagic options magic ≠ .error (.decode error) := by
  intro h
  unfold checkMagic at h
  split at h
  · split at h <;> cases h
  · cases h

lemma checkUuid_ne_decode {found expected : Option Uuid} :
    checkUuid options found expected ≠ .error (.decode error) := by
  intro h
  unfold checkUuid at h
  split at h
  · split at h <;> cases h
  · cases h

/-- The selection of a stream decodes nothing that could fail. -/
lemma selectStream_ne_decode {scopes : Arena} {header : Option ScopeId} :
    selectStream metadata options scopes header ≠ .error (.decode error) := by
  intro h
  rcases error_of_bind_eq_error h with h | ⟨_, -, h⟩
  · exact checkMagic_ne_decode h
  rcases error_of_bind_eq_error h with h | ⟨_, -, h⟩
  · exact checkUuid_ne_decode h
  dsimp only at h
  split at h <;> cases h

lemma not_fault_of_run {α : Type} {step : DecodeM α} {s : DecodeState} (hstep : step.Avoids fault)
    (h : run step s = .error (.decode error)) : ¬fault error := by
  obtain ⟨_, s', ⟨⟩, hfail⟩ := error_of_run h
  exact hstep s error s' hfail

/-- What goes wrong in header and context goes wrong in a block of the metadata. -/
lemma not_fault_of_ofBytes (h : LayoutsAvoid options.lengthLimit fault metadata.layouts) {data : ByteArray}
    (hfail : ofBytes metadata options data = .error (.decode error)) : ¬fault error := by
  rcases error_of_bind_eq_error hfail with hfail | ⟨_, -, hfail⟩
  · exact not_fault_of_run (avoids_decodeDeclared (h.packetHeader _)) hfail
  rcases error_of_bind_eq_error hfail with hfail | ⟨stream, hstream, hfail⟩
  · exact absurd hfail selectStream_ne_decode
  rcases error_of_bind_eq_error hfail with hfail | ⟨_, -, hfail⟩
  · obtain ⟨key, hmem⟩ := exists_of_selectStream hstream
    refine not_fault_of_run (avoids_decodeDeclared fun t ht => ?_) hfail
    exact h.ofStream hmem t (by simp [StreamSchema.layouts, Option.mem_def.mp ht]) _
  · cases hfail

end PacketHead

/-! ## The index -/

/-- A packet whose head has been decoded is broken for its sizes only. -/
lemma Packet.error_ne_decode_of_ofHead {index offset available : ℕ} {head : PacketHead} {broken : BrokenPacket}
    (h : ofHead metadata index offset available head = .error broken) : broken.error ≠ .decode error := by
  unfold ofHead at h
  dsimp only at h
  split at h
  · cases h
    nofun
  split at h
  · cases h
    nofun
  split at h
  · cases h
    nofun
  split at h
  · cases h
    nofun
  · cases h

lemma Packet.not_fault_of_locate (h : LayoutsAvoid options.lengthLimit fault metadata.layouts)
    {file : ByteArray} {index offset : ℕ} {next : Option ℕ}
    (hfail : locate metadata options file index offset = .error ⟨.decode error, next⟩) : ¬fault error := by
  unfold locate at hfail
  split at hfail
  · exact absurd rfl (error_ne_decode_of_ofHead hfail)
  · rename_i e hdecode
    cases hfail
    exact PacketHead.not_fault_of_ofBytes h hdecode

namespace PacketIndex

/-- **No packet is broken for an error with which no block is decoded.** -/
theorem not_fault_of_ofFile (h : LayoutsAvoid options.lengthLimit fault metadata.layouts) {file : ByteArray}
    (hmem : .error (.decode error) ∈ ofFile metadata options file) : ¬fault error := by
  obtain ⟨i, hi⟩ := List.mem_iff_getElem?.mp hmem
  obtain ⟨_, _, -, hentry⟩ := (framing_ofFile metadata options file).exists_entry hi
  cases hentry with
  | other hlocate => exact Packet.not_fault_of_locate h hlocate

/-- The stream of a packet is one of the metadata. -/
lemma exists_stream_of_ofFile {file : ByteArray} {packet : Packet}
    (hmem : .ok packet ∈ ofFile metadata options file) :
    ∃ key, (key, packet.stream) ∈ metadata.streams.entries := by
  obtain ⟨head, hhead⟩ := exists_head_of_mem (mem_packets.mpr hmem)
  obtain ⟨-, -, -, -, -, hstream, -⟩ := PacketHead.exists_steps_of_ofBytes hhead.decoded
  rwa [hhead.stream_eq]

end PacketIndex

/-! ## Events -/

lemma EventHeader.avoids_decode {t : Option FieldType}
    (h : ∀ u ∈ t, (u.decodeBlock limit .streamEventHeader).Avoids fault) : (decode limit t).Avoids fault := by
  cases t with
  | none => exact .pure _
  | some t => exact (h t rfl).bind fun scope => .bind .get fun _ => .pure _

namespace Event

lemma avoids_decodeBlock {block : StaticScope} {t : Option FieldType}
    (h : ∀ u ∈ t, (u.decodeBlock limit block).Avoids fault) : (decodeBlock limit block t).Avoids fault := by
  cases t with
  | none => exact .pure _
  | some t => exact (h t rfl).bind fun _ => .pure _

/-- **An event is decoded without the errors that its blocks are decoded without**, wherever it starts. -/
theorem avoids_decode (hfault : DecodeError.FromReads fault) {packet : Packet}
    (h : LayoutsAvoid limit fault packet.stream.layouts) : (decode limit packet).Avoids fault := by
  have hblock : ∀ t block, t ∈ packet.stream.layouts → (t.decodeBlock limit block).Avoids fault :=
    fun t block ht => h t ht block
  unfold StreamSchema.layouts at hblock
  refine .bind .get fun start => ?_
  refine (EventHeader.avoids_decode fun t ht => hblock t _ (by simp [Option.mem_def.mp ht])).bind fun header => ?_
  refine (avoids_decodeBlock fun t ht => hblock t _ (by simp [Option.mem_def.mp ht])).bind fun _ => ?_
  split
  · exact .throw (hfault.not_fault nofun)
  · rename_i event hevent
    have hlayouts : ∀ t ∈ event.layouts, ∀ block, (t.decodeBlock limit block).Avoids fault := by
      intro t ht block
      have hall := List.mem_flatMap.mpr ⟨event, StreamSchema.mem_of_event? hevent, ht⟩
      exact hblock t block (List.mem_append_right _ hall)
    unfold EventSchema.layouts at hlayouts
    refine (avoids_decodeBlock fun t ht => hlayouts t (by simp [Option.mem_def.mp ht]) _).bind fun _ => ?_
    refine (avoids_decodeBlock fun t ht => hlayouts t (by simp [Option.mem_def.mp ht]) _).bind fun _ => ?_
    refine .bind .get fun s => ?_
    split
    · exact .bind (.throw (hfault.not_fault nofun)) fun _ => .pure _
    · exact .pure _

end Event

namespace PacketReader

variable {r r' : PacketReader}

lemma not_fault_of_next (hfault : DecodeError.FromReads fault)
    (h : LayoutsAvoid limit fault r.packet.stream.layouts)
    (hnext : r.next metadata limit = (some (.error error), r')) : ¬fault error := by
  unfold next at hnext
  split at hnext
  · cases hnext
  · cases hnext
  split at hnext
  · cases hnext
  unfold decodeEvent at hnext
  dsimp only at hnext
  split at hnext
  · cases hnext
  · rename_i hfail
    cases hnext
    exact Event.avoids_decode hfault h _ _ _ hfail

/-- **A reader of a packet reports no error with which no block is decoded.** -/
theorem not_fault_of_mem_toList (hfault : DecodeError.FromReads fault)
    (h : LayoutsAvoid limit fault r.packet.stream.layouts)
    (hmem : .error error ∈ r.toList metadata limit) : ¬fault error := by
  unfold toList at hmem
  generalize r.cursor.remaining + 2 = count at hmem
  induction count generalizing r with
  | zero => exact absurd hmem List.not_mem_nil
  | succ count ih =>
    rw [take] at hmem
    split at hmem
    · rename_i result r' hnext
      have hpacket : r'.packet = r.packet := packet_of_next hnext
      rcases List.mem_cons.mp hmem with rfl | hmem
      · exact not_fault_of_next hfault h hnext
      · exact ih (hpacket ▸ h) hmem
    · exact absurd hmem List.not_mem_nil

/-- A reader reads the packet that it has been opened for. -/
lemma packet_of_ofPacket {file : ByteArray} {packet : Packet} (h : ofPacket file packet = .ok r) :
    r.packet = packet := by
  obtain ⟨_, -, h⟩ := exists_of_bind_eq_ok h
  cases h
  rfl

/-- A packet that cannot be opened is too short. -/
lemma not_fault_of_ofPacket (hfault : DecodeError.FromReads fault) {file : ByteArray} {packet : Packet}
    {e : ReadError} (h : ofPacket file packet = .error e) : ¬fault (.read e) := by
  rcases error_of_bind_eq_error h with h | ⟨_, -, h⟩
  · unfold Cursor.seek at h
    split at h
    · cases h
    · cases h
      exact hfault.underflow _ _ _
  · cases h

end PacketReader

end Packets

end CommonTrace
