import CommonTrace.Proofs.Field.Locality
import CommonTrace.Proofs.Packet.Origin
import CommonTrace.Proofs.Packet.Stops
import CommonTrace.Proofs.Trace.Errors

/-!
# What comes later does not matter

A packet that gives its own size is located by the bytes up to its end: what its head says has been read
from these bytes, and it is checked against the end of the file only to make sure that the packet is
inside.  So if two files agree up to the end of a packet, and the packets up to there give their sizes,
then the indexes of both files start with the same packets, and reading these gives the same
(`PacketIndex.startsAlike`).

A packet that gives no size extends to the end of its file, so nothing of the kind can be said of it.  Nor can it
be said where the bytes behind the packets stop the program (`PacketIndex.not_forall_startsAlike`).
-/

namespace CommonTrace

/-! ## Files that agree -/

/-- Two files agree on the bytes before a byte, up to which both of them reach. -/
structure AgreeUpTo (stop : ℕ) (file file' : ByteArray) : Prop where
  size : stop ≤ file'.size
  byte : ∀ i < stop, file'[i]? = file[i]?

lemma getElem?_extract {data : ByteArray} {start stop i : ℕ} :
    (data.extract start stop)[i]? = if start + i < stop then data[start + i]? else none := by
  rw [← Cursor.getElem?_toList]
  exact Cursor.getElem?_bytesBetween

namespace AgreeUpTo

variable {stop : ℕ} {file file' : ByteArray}

lemma of_extract (hstop : stop ≤ file.size) (h : file'.extract 0 stop = file.extract 0 stop) :
    AgreeUpTo stop file file' where
  size := by
    have hsize := congrArg ByteArray.size h
    simp only [ByteArray.size_extract] at hsize
    omega
  byte := by
    intro i hi
    have hbyte := congrArg (fun data => data[i]?) h
    simpa [getElem?_extract, hi] using hbyte

lemma mono (h : AgreeUpTo stop file file') {earlier : ℕ} (hle : earlier ≤ stop) :
    AgreeUpTo earlier file file' where
  size := Nat.le_trans hle h.size
  byte := fun i hi => h.byte i (Nat.lt_of_lt_of_le hi hle)

lemma extract_eq (h : AgreeUpTo stop file file') (start : ℕ) :
    file'.extract start stop = file.extract start stop := by
  have hbytes : Cursor.bytesBetween file' start stop = Cursor.bytesBetween file start stop := by
    apply List.ext_getElem?
    intro i
    rw [Cursor.getElem?_bytesBetween, Cursor.getElem?_bytesBetween]
    by_cases hi : start + i < stop
    · rw [if_pos hi, if_pos hi, h.byte _ hi]
    · rw [if_neg hi, if_neg hi]
  apply ByteArray.ext
  apply Array.toList_inj.mp
  exact hbytes

end AgreeUpTo

/-! ## Heads -/

namespace PacketHead

variable {metadata : Metadata} {options : ReadOptions} {head : PacketHead}

lemma repeated_decodeDeclared (limit : ℕ) (block : StaticScope) (t : Option FieldType) :
    (decodeDeclared limit block t).RepeatedBy (decodeDeclared limit block t) := by
  cases t with
  | none => exact DecodeM.repeated_pure _
  | some t => exact (FieldType.repeated_decodeBlock (Nat.le_refl limit) t block).map _

lemma run_of_ok {α : Type} {step : DecodeM α} {a : α} {s s' : DecodeState}
    (h : step s = .ok a s') : run step s = .ok (a, s') := by
  rw [run, h]

/-- **The head of a packet is what its bytes say.** -/
lemma ofBytes_of_same {data data' : ByteArray} {bytes : ℕ}
    (h : ofBytes metadata options data = .ok head) (hsize : head.size ≤ 8 * bytes)
    (hbyte : ∀ i < bytes, data'[i]? = data[i]?) (hlength : bytes ≤ data'.size) :
    ofBytes metadata options data' = .ok head := by
  obtain ⟨⟨header, s₁⟩, hheader, h⟩ := exists_of_bind_eq_ok h
  obtain ⟨stream, hstream, h⟩ := exists_of_bind_eq_ok h
  obtain ⟨⟨context, s₂⟩, hcontext, h⟩ := exists_of_bind_eq_ok h
  cases h
  obtain ⟨-, hmoved₁, hagain₁⟩ := repeated_decodeDeclared _ _ _ _ _ _ (ok_of_run hheader)
  obtain ⟨hle, -, hagain₂⟩ := repeated_decodeDeclared _ _ _ _ _ _ (ok_of_run hcontext)
  dsimp only at hsize
  have hsame : (Cursor.ofBytes data).FindsSame s₂.cursor.position (Cursor.ofBytes data') :=
    { position := rfl
      data := fun i _ hi => hbyte i (by omega)
      limit := Nat.le_trans hsize (Nat.mul_le_mul_left 8 hlength) }
  obtain ⟨s₁', hheader', hscopes₁, hmoved₁'⟩ :=
    hagain₁ { cursor := .ofBytes data', scopes := .empty } rfl (hsame.earlier hle)
  obtain ⟨s₂', hcontext', hscopes₂, hmoved₂'⟩ :=
    hagain₂ s₁' hscopes₁ (hsame.moved (Nat.zero_le _) hmoved₁ hmoved₁')
  simp only [ofBytes, run_of_ok hheader', bind, Except.bind]
  rw [hscopes₁, hstream]
  simp only [run_of_ok hcontext', hscopes₂, hmoved₂'.position]
  rfl

/-- Sizes that the context gives do not depend on where the file ends. -/
lemma sizes_eq (h : head.number? "content_size" ≠ none ∨ head.number? "packet_size" ≠ none)
    (available available' : ℕ) : head.sizes available = head.sizes available' := by
  unfold sizes
  cases hcontent : head.number? "content_size" <;> cases hpacket : head.number? "packet_size"
  · simp [hcontent, hpacket] at h
  · rfl
  · rfl
  · rfl

end PacketHead

/-! ## Packets -/

namespace Packet

variable {metadata : Metadata} {options : ReadOptions} {file file' : ByteArray} {p : Packet}

/-- A packet whose context gives its size. -/
def Sized (p : Packet) : Prop :=
  p.contextNumber? "content_size" ≠ none ∨ p.contextNumber? "packet_size" ≠ none

lemma ofHead_of_room {index offset available available' : ℕ} {head : PacketHead}
    (h : ofHead metadata index offset available head = .ok p)
    (hsized : head.number? "content_size" ≠ none ∨ head.number? "packet_size" ≠ none)
    (hroom : p.packetSize / 8 ≤ available') :
    ofHead metadata index offset available' head = .ok p := by
  have hsize : p.packetSize = (head.sizes available).2 := congrArg packetSize (eq_of_ofHead h)
  unfold ofHead at h ⊢
  rw [head.sizes_eq hsized available' available]
  dsimp only at h ⊢
  split at h
  · cases h
  rename_i hwhole
  split at h
  · cases h
  rw [if_neg hwhole, if_neg (by omega)]
  exact h

/-- **A packet that gives its size is located by the bytes up to its end.** -/
lemma locate_of_agree {index offset : ℕ} (hoffset : offset < file.size)
    (h : locate metadata options file index offset = .ok p) (hsized : p.Sized)
    (hagree : AgreeUpTo p.endOffset file file') :
    locate metadata options file' index offset = .ok p := by
  have hentry := PacketIndex.entry_of_locate metadata options index hoffset
  rw [h] at hentry
  obtain ⟨hframed, -, rfl, -⟩ := hentry.framed
  obtain ⟨-, -, head, hhead⟩ := exists_head_of_locate h
  have hnumber := hhead.contextNumber?_eq
  have hsizes : p.eventsOffset = head.size := hhead.eventsOffset_eq
  have hend : p.endOffset = p.offset + p.packetSize / 8 := rfl
  have hwhole := hframed.whole
  have hcontent := hframed.content_le
  have hevents := hframed.events_le
  have hinside := hframed.inside
  have hroom := hagree.size
  -- Both files have the same bytes from the offset to the end of the packet.
  have hbyte : ∀ i < p.packetSize / 8,
      (file'.extract p.offset file'.size)[i]? = (file.extract p.offset file.size)[i]? := by
    intro i hi
    rw [getElem?_extract, getElem?_extract, if_pos (by omega), if_pos (by omega),
      hagree.byte _ (by omega)]
  have hlength : p.packetSize / 8 ≤ (file'.extract p.offset file'.size).size := by
    rw [ByteArray.size_extract]
    omega
  have hdecoded := PacketHead.ofBytes_of_same hhead.decoded (by omega) hbyte hlength
  rw [locate, hhead.decoded] at h
  rw [locate, hdecoded]
  dsimp only at h ⊢
  apply ofHead_of_room h
  · rwa [← hnumber]
  · omega

/-- What a reader of a packet sees are the bytes of the packet. -/
lemma ofPacket_of_agree (hframed : p.Framed file) (hagree : AgreeUpTo p.endOffset file file') :
    PacketReader.ofPacket file' p = PacketReader.ofPacket file p := by
  have hbytes : p.bytes file' = p.bytes file := by
    rw [hframed.bytes_eq, bytes, if_pos hagree.size, hagree.extract_eq]
  rw [PacketReader.ofPacket, hbytes, PacketReader.ofPacket]

end Packet

/-! ## Indexes -/

namespace PacketIndex

variable {metadata : Metadata} {options : ReadOptions} {file file' : ByteArray}

/-- Both indexes go on alike as long as the packets give their sizes and the files agree. -/
lemma prefix_countLost {packets : List Packet} {index offset count count' discarded : ℕ}
    {previousStop : Option Instant}
    (hstarts : packets.map .ok <+:
      countLost discarded previousStop (locateFrom metadata options file index offset count))
    (hsized : ∀ p ∈ packets, p.Sized)
    (hagree : ∀ p ∈ packets, AgreeUpTo p.endOffset file file')
    (hcount : file'.size - offset ≤ count') :
    packets.map .ok <+:
      countLost discarded previousStop (locateFrom metadata options file' index offset count') := by
  induction packets generalizing index offset count count' discarded previousStop with
  | nil => simp
  | cons p packets ih =>
    simp only [List.forall_mem_cons] at hsized hagree
    obtain ⟨hp, hothers⟩ := hsized
    obtain ⟨hpagree, hothersAgree⟩ := hagree
    cases count with
    | zero => simp [locateFrom, countLost] at hstarts
    | succ count =>
      rw [locateFrom] at hstarts
      split at hstarts
      · simp [countLost] at hstarts
      rename_i hend
      split at hstarts
      · rename_i q hlocate
        simp only [countLost, List.map_cons, List.cons_prefix_cons, Except.ok.injEq] at hstarts
        obtain ⟨rfl, hrest⟩ := hstarts
        rw [Packet.Sized, Packet.contextNumber?_countLost] at hp
        rw [Packet.endOffset_countLost] at hpagree
        have hoffset : offset < file.size := Nat.lt_of_not_le hend
        have hlocate' := Packet.locate_of_agree hoffset hlocate hp hpagree
        -- The other file goes on behind the packet, too.
        have hentry := entry_of_locate metadata options index hoffset
        rw [hlocate] at hentry
        obtain ⟨hframed, -, rfl, -⟩ := hentry.framed
        have hforward := hframed.offset_lt
        have hroom := hpagree.size
        obtain ⟨count', rfl⟩ : ∃ n, count' = n + 1 := ⟨count' - 1, by omega⟩
        rw [locateFrom, if_neg (by omega), hlocate']
        simp only [countLost, List.map_cons, List.cons_prefix_cons, true_and]
        exact ih hrest hothers hothersAgree (by omega)
      · simp [countLost] at hstarts

end PacketIndex

namespace PacketIndex

variable {metadata : Metadata} {options : ReadOptions} {file file' : ByteArray}
  {packets : List Packet} {last p : Packet}

lemma mem_of_starts (hstarts : packets.map .ok <+: ofFile metadata options file)
    (hp : p ∈ packets) : p ∈ (ofFile metadata options file).packets :=
  mem_packets.mpr (hstarts.subset (List.mem_map_of_mem hp))

lemma framed_of_starts (hstarts : packets.map .ok <+: ofFile metadata options file)
    (hp : p ∈ packets) : p.Framed file := by
  have hmem := mem_of_starts hstarts hp
  obtain ⟨_, _, _, -, hentry⟩ := (framing_ofFile metadata options file).exists_entry_of_mem hmem
  exact hentry.framed.1

/-- The packets at the start of an index do not end behind the last of them. -/
lemma endOffset_le_of_starts (hstarts : packets.map .ok <+: ofFile metadata options file)
    (hlast : packets.getLast? = some last) (hp : p ∈ packets) : p.endOffset ≤ last.endOffset := by
  have hascending := (framing_ofFile metadata options file).ascending
  have hforward := (framed_of_starts hstarts (List.mem_of_getLast? hlast)).offset_lt
  obtain ⟨rest, hrest⟩ := hstarts
  obtain ⟨before, rfl⟩ := List.getLast?_eq_some_iff.mp hlast
  have hpackets : ∀ ps : List Packet, PacketIndex.packets (ps.map .ok) = ps := by
    intro ps
    induction ps with
    | nil => rfl
    | cons q ps ih => rw [List.map_cons, packets_ok_cons, ih]
  rw [← hrest, packets_append, hpackets, List.append_assoc, List.pairwise_append] at hascending
  rcases List.mem_append.mp hp with hp | hp
  · have hle := hascending.2.2 p hp last (by simp)
    omega
  · obtain rfl := List.mem_singleton.mp hp
    exact Nat.le_refl _

/-- Up to the last packet of the start of an index, the files agree up to each packet. -/
lemma agree_of_starts (hstarts : packets.map .ok <+: ofFile metadata options file)
    (hlast : packets.getLast? = some last)
    (hagree : file'.extract 0 last.endOffset = file.extract 0 last.endOffset) :
    ∀ p ∈ packets, AgreeUpTo p.endOffset file file' := by
  have hinside := (framed_of_starts hstarts (List.mem_of_getLast? hlast)).inside
  intro p hp
  exact (AgreeUpTo.of_extract hinside hagree).mono (endOffset_le_of_starts hstarts hlast hp)

end PacketIndex

/-! ## Events -/

/-- A file that is read with the given metadata and options. -/
def StreamFile.ofData (metadata : Metadata) (options : ReadOptions) (name : String)
    (data : ByteArray) : StreamFile :=
  { name, data, packets := PacketIndex.ofFile metadata options data }

namespace Trace

variable {trace : Trace} {packets : List Packet}

/-- What the packets at the start of the index of a file give comes first in what the file gives. -/
lemma indexEvents_starts {file : StreamFile} (h : packets.map .ok <+: file.packets) :
    trace.indexEvents file 0 (packets.map .ok) <+: trace.fileEvents file := by
  obtain ⟨rest, hrest⟩ := h
  have htake : file.packets.take packets.length = packets.map .ok := by
    rw [← hrest, List.take_left' (by simp)]
  rw [fileEvents_eq_append trace file packets.length, htake]
  exact List.prefix_append _ _

/-- What packets give depends on what their readers are. -/
lemma indexEvents_congr (trace : Trace) (file file' : StreamFile) (hname : file'.name = file.name)
    (hreader : ∀ p ∈ packets,
      PacketReader.ofPacket file'.data p = PacketReader.ofPacket file.data p) (start : ℕ) :
    trace.indexEvents file' start (packets.map .ok) =
      trace.indexEvents file start (packets.map .ok) := by
  unfold indexEvents
  apply List.flatMap_congr
  rintro ⟨entry, index⟩ hentry
  have hmem : entry ∈ packets.map .ok := List.fst_mem_of_mem_zipIdx hentry
  obtain ⟨p, hp, rfl⟩ := List.mem_map.mp hmem
  simp only [entryEvents, hreader p hp, packetEvents, hname]

/-- Packets that have been located do not stop the program while they are read. -/
lemma stops_eq_false_of_indexEvents (hlimit : trace.options.lengthLimit < twoPow 61) {file : StreamFile}
    {start : ℕ} {error : TraceError}
    (hmem : .error error ∈ trace.indexEvents file start (packets.map .ok)) : error.fault.stops = false := by
  obtain ⟨⟨entry, index⟩, hentry, hmem⟩ := List.mem_flatMap.mp hmem
  obtain ⟨p, -, rfl⟩ := List.mem_map.mp (List.fst_mem_of_mem_zipIdx hentry)
  refine Bool.eq_false_iff.mpr (ReadFault.not_stops ?_)
  exact not_fault_of_entryEvents DecodeError.fromReads_stops (layoutsAvoid_stops hlimit _) hmem

end Trace

/-- **What comes later does not matter.**  The index of the second file is made and starts with the packets, the
packets have the same readers for both files, and in any trace they give the same events and errors, before
anything else of their files.  Read as they have been located, they do not stop the program. -/
structure PacketIndex.StartsAlike (metadata : Metadata) (options : ReadOptions) (file file' : ByteArray)
    (packets : List Packet) : Prop where
  made : (ofFile metadata options file').stops = false
  powers : metadata.PowersFit
  starts : packets.map .ok <+: ofFile metadata options file'
  readers : ∀ p ∈ packets, ∃ r, PacketReader.ofPacket file p = .ok r ∧ PacketReader.ofPacket file' p = .ok r
  given : ∀ (trace : Trace) (name : String), ∃ given,
    given = trace.indexEvents (.ofData metadata options name file) 0 (packets.map .ok) ∧
    given = trace.indexEvents (.ofData metadata options name file') 0 (packets.map .ok) ∧
    given <+: trace.fileEvents (.ofData metadata options name file) ∧
    given <+: trace.fileEvents (.ofData metadata options name file') ∧
    (trace.options = options → ∀ error, .error error ∈ given → error.fault.stops = false)

namespace PacketIndex

/-- Let the index of a file start with packets that all give their sizes, and let another file have the same bytes
up to the end of the last of them.  **Then both files start alike**, where what is computed on the way fits its
words. -/
theorem startsAlike {metadata : Metadata} {options : ReadOptions} {file file' : ByteArray}
    {packets : List Packet} {last : Packet} (hwords : metadata.ReadsInWords options)
    (hstarts : packets.map .ok <+: ofFile metadata options file)
    (hsized : ∀ p ∈ packets, p.Sized) (hlast : packets.getLast? = some last)
    (hagree : file'.extract 0 last.endOffset = file.extract 0 last.endOffset) :
    StartsAlike metadata options file file' packets := by
  have hagrees := agree_of_starts hstarts hlast hagree
  have hstarts' : packets.map .ok <+: ofFile metadata options file' :=
    prefix_countLost hstarts hsized hagrees (Nat.le_refl _)
  have hreader : ∀ p ∈ packets,
      PacketReader.ofPacket file' p = PacketReader.ofPacket file p := by
    intro p hp
    exact Packet.ofPacket_of_agree (framed_of_starts hstarts hp) (hagrees p hp)
  refine
    { made := stops_ofFile hwords.texts metadata file'
      powers := hwords.powersFit
      starts := hstarts'
      readers := fun p hp => ?_
      given := fun trace name => ?_ }
  · obtain ⟨r, hr, -⟩ := (framed_of_starts hstarts hp).exists_reader
    exact ⟨r, hr, by rw [hreader p hp, hr]⟩
  · have hsame := trace.indexEvents_congr (.ofData metadata options name file)
      (.ofData metadata options name file') rfl hreader 0
    refine ⟨_, rfl, hsame.symm, Trace.indexEvents_starts hstarts, ?_, ?_⟩
    · rw [← hsame]
      exact Trace.indexEvents_starts hstarts'
    · rintro rfl error hmem
      exact Trace.stops_eq_false_of_indexEvents hwords.texts hmem

lemma exists_of_head? {index : PacketIndex} {size stop : ℕ}
    (h : (index.head?.bind Except.toOption).map
      (fun p => (p.contextNumber? "packet_size", p.endOffset)) = some (some size, stop)) :
    ∃ p rest, index = .ok p :: rest ∧ p.Sized ∧ p.endOffset = stop := by
  obtain ⟨p, hhead, hp⟩ := Option.map_eq_some_iff.mp h
  obtain ⟨entry, hentry, hok⟩ := Option.bind_eq_some_iff.mp hhead
  obtain ⟨rest, rfl⟩ := List.head?_eq_some_iff.mp hentry
  simp only [Prod.mk.injEq] at hp
  exact ⟨p, rest, by rw [eq_ok_of_toOption hok], by simp [Packet.Sized, hp.1], hp.2⟩

/-- The second packet is damaged and a third one is begun, and the first is still the same. -/
theorem startsAlike_damaged :
    ∃ p : Packet, p.Sized ∧ p.endOffset = 3 ∧
      [.ok p] <+: ofFile (.bytewise ["content_size", "packet_size"]) {} ⟨#[24, 24, 1, 24, 24, 3]⟩ ∧
      StartsAlike (.bytewise ["content_size", "packet_size"]) {} ⟨#[24, 24, 1, 24, 24, 3]⟩
        ⟨#[24, 24, 1, 40, 24, 0, 24]⟩ [p] := by
  have hhead : ((ofFile (.bytewise ["content_size", "packet_size"]) {}
      ⟨#[24, 24, 1, 24, 24, 3]⟩).head?.bind Except.toOption).map
        (fun p => (p.contextNumber? "packet_size", p.endOffset)) = some (some 24, 3) := by
    decide +kernel
  obtain ⟨p, rest, hindex, hsized, hend⟩ := exists_of_head? hhead
  have hstarts : [p].map .ok <+:
      ofFile (.bytewise ["content_size", "packet_size"]) {} ⟨#[24, 24, 1, 24, 24, 3]⟩ := by
    simp [hindex]
  have hlast : [p].getLast? = some p := rfl
  have hagree : ByteArray.extract ⟨#[24, 24, 1, 40, 24, 0, 24]⟩ 0 p.endOffset =
      ByteArray.extract ⟨#[24, 24, 1, 24, 24, 3]⟩ 0 p.endOffset := by
    rw [hend]
    decide +kernel
  have hfloats : (Metadata.bytewise ["content_size", "packet_size"]).layouts.flatMap FieldType.floats = [] := by
    decide +kernel
  have hwords : (Metadata.bytewise ["content_size", "packet_size"]).ReadsInWords {} :=
    ⟨by decide, by rw [hfloats]; nofun⟩
  exact ⟨p, hsized, hend, hstarts, startsAlike hwords hstarts (List.forall_mem_singleton.mpr hsized) hlast hagree⟩

/-- **Bytes behind a packet may stop the program** before it gives the packet, where texts of `2 ^ 61` bytes are
allowed: they need only say that there is such a text. -/
theorem not_forall_startsAlike :
    (ofFile (.ofContext FieldType.countedText) .unlimited
        ⟨#[72, 0, 0, 0, 0, 0, 0, 0, 0, 72, 0, 0, 0, 0, 0, 0, 0, 32]⟩).stops = true ∧
      ¬∀ (metadata : Metadata) (options : ReadOptions) (file file' : ByteArray) (packets : List Packet)
        (last : Packet), packets.map .ok <+: ofFile metadata options file → (∀ p ∈ packets, p.Sized) →
        packets.getLast? = some last →
        file'.extract 0 last.endOffset = file.extract 0 last.endOffset →
        StartsAlike metadata options file file' packets := by
  have hstops : (ofFile (.ofContext FieldType.countedText) .unlimited
      ⟨#[72, 0, 0, 0, 0, 0, 0, 0, 0, 72, 0, 0, 0, 0, 0, 0, 0, 32]⟩).stops = true := by decide +kernel
  have hhead : ((ofFile (.ofContext FieldType.countedText) .unlimited
      ⟨#[72, 0, 0, 0, 0, 0, 0, 0, 0]⟩).head?.bind Except.toOption).map
        (fun p => (p.contextNumber? "packet_size", p.endOffset)) = some (some 72, 9) := by
    decide +kernel
  obtain ⟨p, rest, hindex, hsized, hend⟩ := exists_of_head? hhead
  refine ⟨hstops, fun h => ?_⟩
  have halike := h (.ofContext FieldType.countedText) .unlimited
    ⟨#[72, 0, 0, 0, 0, 0, 0, 0, 0]⟩ ⟨#[72, 0, 0, 0, 0, 0, 0, 0, 0, 72, 0, 0, 0, 0, 0, 0, 0, 32]⟩ [p] p
    (by simp [hindex]) (List.forall_mem_singleton.mpr hsized) rfl (by rw [hend]; decide +kernel)
  exact Bool.false_ne_true (halike.made.symm.trans hstops)

end PacketIndex

end CommonTrace
