import CommonTrace.Packet.Events
import CommonTrace.Packet.Index
import CommonTrace.Proofs.Schema.Steps
import Mathlib.Data.Nat.Notation
import Mathlib.Tactic.Cases

/-!
# Packets frame their file

An index says of every packet of a file where it is and how large it is.  The sizes come from bytes that
may be anything: they may be missing, contradict each other, or lie beyond the file.  What holds all the
same is the *framing*.  One entry leads to the next (`PacketIndex.Entry`), in one of four ways.

* A packet is located, inside the file, and the next entry starts behind it.
* Its content is said to be greater than itself, and the next entry starts behind it all the same.
* Its header and context are greater than its content; likewise.
* Any other error is the last entry.

An index is a run of such entries from byte 0 on (`PacketIndex.Framing`), up to the end of the file or
to the last error.  Everything else is read off such runs: `PacketIndex.framesFile_ofFile`.
-/

namespace CommonTrace

/-- Whether the size of a packet is sound in spite of the error. -/
def FormatError.sizeKnown : FormatError → Bool
  | .contentExceedsPacket _ _ | .headerExceedsContent _ _ => true
  | _ => false

namespace PacketIndex

/-- The packets that have been located. -/
def packets (index : PacketIndex) : List Packet :=
  index.filterMap Except.toOption

@[simp] lemma packets_nil : packets [] = [] :=
  rfl

@[simp] lemma packets_ok_cons (p : Packet) (rest : PacketIndex) :
    packets (.ok p :: rest) = p :: packets rest :=
  rfl

@[simp] lemma packets_error_cons (error : FormatError) (rest : PacketIndex) :
    packets (.error error :: rest) = packets rest :=
  rfl

/-- **What a packet says of its sizes.**  At a byte of a file stand a header and a context of `head` bits,
by which the packet has the given sizes in bits; it is a number of whole bytes, at least one, that the
file has. -/
structure Sizes (metadata : Metadata) (options : ReadOptions) (file : ByteArray)
    (offset head contentSize packetSize : ℕ) : Prop where
  declared : ∃ h, PacketHead.ofBytes metadata options (file.extract offset file.size) = .ok h ∧
    h.size = head ∧ h.sizes (file.size - offset) = (contentSize, packetSize)
  positive : 0 < packetSize
  whole : packetSize % 8 = 0
  inside : offset + packetSize / 8 ≤ file.size

/-- **One entry**, with the byte at which the next one starts. -/
inductive Entry (metadata : Metadata) (options : ReadOptions) (file : ByteArray) (index offset : ℕ) :
    Except FormatError Packet → Option ℕ → Prop
  | packet {p : Packet} (index_eq : p.index = index) (offset_eq : p.offset = offset)
      (sizes : Sizes metadata options file offset p.eventsOffset p.contentSize p.packetSize)
      (events_le : p.eventsOffset ≤ p.contentSize) (content_le : p.contentSize ≤ p.packetSize) :
      Entry metadata options file index offset (.ok p) (some (offset + p.packetSize / 8))
  | contentExceedsPacket {head contentSize packetSize : ℕ}
      (sizes : Sizes metadata options file offset head contentSize packetSize)
      (exceeds : packetSize < contentSize) :
      Entry metadata options file index offset (.error (.contentExceedsPacket contentSize packetSize))
        (some (offset + packetSize / 8))
  | headerExceedsContent {head contentSize packetSize : ℕ}
      (sizes : Sizes metadata options file offset head contentSize packetSize)
      (content_le : contentSize ≤ packetSize) (exceeds : contentSize < head) :
      Entry metadata options file index offset (.error (.headerExceedsContent head contentSize))
        (some (offset + packetSize / 8))
  | other {error : FormatError} (located : Packet.locate metadata options file index offset =
      .error ⟨error, none⟩) (fatal : error.sizeKnown = false) :
      Entry metadata options file index offset (.error error) none

/-- **A run of entries** from a byte of a file on, where `index` entries come before. -/
inductive Framing (metadata : Metadata) (options : ReadOptions) (file : ByteArray) :
    ℕ → ℕ → PacketIndex → Prop
  | finish {index : ℕ} : Framing metadata options file index file.size []
  | next {index offset next : ℕ} {entry : Except FormatError Packet} {rest : PacketIndex}
      (first : Entry metadata options file index offset entry (some next))
      (others : Framing metadata options file (index + 1) next rest) :
      Framing metadata options file index offset (entry :: rest)
  | last {index offset : ℕ} {entry : Except FormatError Packet}
      (only : Entry metadata options file index offset entry none) :
      Framing metadata options file index offset [entry]

end PacketIndex

/-! ## One entry -/

section Entries

variable {metadata : Metadata} {options : ReadOptions} {file : ByteArray} {index offset : ℕ}

namespace PacketHead

/-- Header and context fail to be read for other reasons than the sizes of the packet. -/
lemma not_sizeKnown_of_selectStream {scopes : Arena} {header : Option ScopeId} {error : FormatError}
    (h : selectStream metadata options scopes header = .error error) : error.sizeKnown = false := by
  rcases error_of_bind_eq_error h with h | ⟨_, -, h⟩
  · unfold checkMagic at h
    split at h
    · split at h <;> cases h
      rfl
    · cases h
  rcases error_of_bind_eq_error h with h | ⟨_, -, h⟩
  · unfold checkUuid at h
    split at h
    · split at h <;> cases h
      rfl
    · cases h
  dsimp only at h
  split at h <;> cases h
  rfl

lemma not_sizeKnown_of_run {α : Type} {step : DecodeM α} {s : DecodeState} {error : FormatError}
    (h : run step s = .error error) : error.sizeKnown = false := by
  unfold run at h
  split at h <;> cases h
  rfl

lemma not_sizeKnown_of_ofBytes {data : ByteArray} {error : FormatError}
    (h : ofBytes metadata options data = .error error) : error.sizeKnown = false := by
  rcases error_of_bind_eq_error h with h | ⟨_, -, h⟩
  · exact not_sizeKnown_of_run h
  rcases error_of_bind_eq_error h with h | ⟨_, -, h⟩
  · exact not_sizeKnown_of_selectStream h
  rcases error_of_bind_eq_error h with h | ⟨_, -, h⟩
  · exact not_sizeKnown_of_run h
  · cases h

end PacketHead

namespace PacketIndex

/-- The entry of what stands at a byte of the file. -/
def entryOf (located : Except BrokenPacket Packet) : Except FormatError Packet × Option ℕ :=
  match located with
  | .ok p => (.ok p, some p.endOffset)
  | .error broken => (.error broken.error, broken.next)

/-- **Every byte of a file has an entry.** -/
theorem entry_of_locate (metadata : Metadata) (options : ReadOptions) (index : ℕ)
    (hoffset : offset < file.size) :
    let entry := entryOf (Packet.locate metadata options file index offset)
    Entry metadata options file index offset entry.1 entry.2 := by
  cases hhead : PacketHead.ofBytes metadata options (file.extract offset file.size) with
  | error error =>
    have hlocate : Packet.locate metadata options file index offset = .error ⟨error, none⟩ := by
      rw [Packet.locate, hhead]
    rw [hlocate]
    exact .other hlocate (PacketHead.not_sizeKnown_of_ofBytes hhead)
  | ok head =>
    have hlocate : Packet.locate metadata options file index offset =
        Packet.ofHead metadata index offset (file.size - offset) head := by
      rw [Packet.locate, hhead]
    cases hsizes : head.sizes (file.size - offset) with
    | mk contentSize packetSize =>
      rw [Packet.ofHead, hsizes] at hlocate
      dsimp only at hlocate
      split at hlocate
      · rw [hlocate]
        exact .other hlocate rfl
      rename_i hsize
      obtain ⟨hpositive, hwhole⟩ := not_or.mp hsize
      split at hlocate
      · rw [hlocate]
        exact .other hlocate rfl
      rename_i hinside
      have sizes : Sizes metadata options file offset head.size contentSize packetSize :=
        { declared := ⟨head, hhead, rfl, hsizes⟩
          positive := Nat.pos_of_ne_zero hpositive
          whole := Decidable.not_not.mp hwhole
          inside := by omega }
      split at hlocate
      · rename_i hexceeds
        rw [hlocate]
        exact .contentExceedsPacket sizes hexceeds
      rename_i hcontent
      split at hlocate
      · rename_i hexceeds
        rw [hlocate]
        exact .headerExceedsContent sizes (Nat.le_of_not_lt hcontent) hexceeds
      · rename_i hevents
        rw [hlocate]
        exact .packet rfl rfl sizes (Nat.le_of_not_lt hevents) (Nat.le_of_not_lt hcontent)

/-- Counting lost events changes nothing that an entry says. -/
lemma Entry.countLost {p : Packet} {next : Option ℕ} (discarded : ℕ) (previousStop : Option Instant)
    (h : Entry metadata options file index offset (.ok p) next) :
    Entry metadata options file index offset (.ok (p.countLost discarded previousStop)) next := by
  cases h with
  | packet index_eq offset_eq sizes events_le content_le =>
    unfold Packet.countLost
    split
    · split <;> exact .packet index_eq offset_eq sizes events_le content_le
    · exact .packet index_eq offset_eq sizes events_le content_le

/-- The next entry starts at a later byte of the file, or at its end. -/
lemma Entry.next_le {entry : Except FormatError Packet} {next : ℕ}
    (h : Entry metadata options file index offset entry (some next)) :
    offset < next ∧ next ≤ file.size := by
  have hsizes : ∃ head contentSize packetSize, next = offset + packetSize / 8 ∧
      Sizes metadata options file offset head contentSize packetSize := by
    cases h with
    | packet _ _ sizes => exact ⟨_, _, _, rfl, sizes⟩
    | contentExceedsPacket sizes => exact ⟨_, _, _, rfl, sizes⟩
    | headerExceedsContent sizes => exact ⟨_, _, _, rfl, sizes⟩
  obtain ⟨head, contentSize, packetSize, rfl, sizes⟩ := hsizes
  have hpositive := sizes.positive
  have hwhole := sizes.whole
  exact ⟨by omega, sizes.inside⟩

end PacketIndex

end Entries

/-! ## All entries -/

section Runs

variable {metadata : Metadata} {options : ReadOptions} {file : ByteArray} {index offset : ℕ}
  {entries : PacketIndex}

namespace PacketIndex

/-- **The index of a file is a run**, also where the number of entries is bounded by the number of bytes
that are left. -/
theorem framing_locateFrom {count : ℕ} (hoffset : offset ≤ file.size)
    (hcount : file.size - offset ≤ count) (discarded : ℕ) (previousStop : Option Instant) :
    Framing metadata options file index offset
      (countLost discarded previousStop (locateFrom metadata options file index offset count)) := by
  induction count generalizing index offset discarded previousStop with
  | zero =>
    obtain rfl : offset = file.size := by omega
    exact .finish
  | succ count ih =>
    rw [locateFrom]
    split
    · rename_i hend
      obtain rfl := Nat.le_antisymm hoffset hend
      exact .finish
    rename_i hend
    have hentry := entry_of_locate metadata options index (Nat.lt_of_not_le hend)
    split
    · rename_i p hlocate
      rw [hlocate] at hentry
      obtain ⟨hlt, hle⟩ := hentry.next_le
      exact .next (hentry.countLost _ _) (ih hle (by omega) _ _)
    · rename_i broken hlocate
      rw [hlocate] at hentry
      dsimp only [entryOf] at hentry
      split
      · rename_i next hnext
        rw [hnext] at hentry
        obtain ⟨hlt, hle⟩ := hentry.next_le
        exact .next hentry (ih hle (by omega) _ _)
      · rename_i hnext
        rw [hnext] at hentry
        exact .last hentry

theorem framing_ofFile (metadata : Metadata) (options : ReadOptions) (file : ByteArray) :
    Framing metadata options file 0 0 (ofFile metadata options file) :=
  framing_locateFrom (Nat.zero_le _) (Nat.le_refl _) 0 none

namespace Framing

/-- An entry stands at its place in the run, behind the byte at which the run starts. -/
lemma exists_entry (h : Framing metadata options file index offset entries) {i : ℕ}
    {entry : Except FormatError Packet} (hi : entries[i]? = some entry) :
    ∃ start next, offset ≤ start ∧
      Entry metadata options file (index + i) start entry next := by
  induction h generalizing i with
  | finish => cases hi
  | next first others ih =>
    cases i with
    | zero =>
      cases hi
      exact ⟨_, _, Nat.le_refl _, first⟩
    | succ i =>
      rw [List.getElem?_cons_succ] at hi
      obtain ⟨start, next, hle, hentry⟩ := ih hi
      refine ⟨start, next, Nat.le_trans (Nat.le_of_lt first.next_le.1) hle, ?_⟩
      rwa [Nat.add_right_comm] at hentry
  | last only =>
    cases i with
    | zero =>
      cases hi
      exact ⟨_, _, Nat.le_refl _, only⟩
    | succ i => cases hi

lemma exists_entry_of_mem (h : Framing metadata options file index offset entries) {p : Packet}
    (hp : p ∈ entries.packets) :
    ∃ i start next, offset ≤ start ∧ Entry metadata options file i start (.ok p) next := by
  obtain ⟨entry, hmem, hentry⟩ := List.mem_filterMap.mp hp
  obtain ⟨i, hi⟩ := List.mem_iff_getElem?.mp hmem
  obtain ⟨start, next, hle, hentry'⟩ := h.exists_entry hi
  cases entry with
  | error error => cases hentry
  | ok p =>
    cases hentry
    exact ⟨_, start, next, hle, hentry'⟩

end Framing

end PacketIndex

/-! ## The located packets -/

/-- **A packet inside its file**: whole bytes of it, with its content in front and its events in that. -/
structure Packet.Framed (file : ByteArray) (p : Packet) : Prop where
  positive : 0 < p.packetSize
  whole : p.packetSize % 8 = 0
  content_le : p.contentSize ≤ p.packetSize
  events_le : p.eventsOffset ≤ p.contentSize
  inside : p.endOffset ≤ file.size

namespace Packet.Framed

variable {p : Packet}

lemma offset_lt (h : p.Framed file) : p.offset < p.endOffset := by
  have hpositive := h.positive
  have hwhole := h.whole
  unfold endOffset
  omega

/-- The packet has bytes. -/
lemma bytes_eq (h : p.Framed file) : p.bytes file = file.extract p.offset p.endOffset := by
  rw [bytes, if_pos h.inside]

lemma size_bytes (h : p.Framed file) : 8 * (p.bytes file).size = p.packetSize := by
  have hwhole := h.whole
  have hinside := h.inside
  rw [h.bytes_eq, ByteArray.size_extract, Nat.min_eq_left hinside, endOffset]
  omega

/-- The packet can be read from its first event on. -/
lemma exists_reader (h : p.Framed file) : ∃ r, PacketReader.ofPacket file p = .ok r ∧
    r.cursor.data = p.bytes file ∧ r.cursor.limit = p.contentSize ∧
    r.cursor.position = p.eventsOffset := by
  have hlimit : (Cursor.ofPrefix (p.bytes file) p.contentSize).limit = p.contentSize := by
    have hcontent := h.content_le
    rw [← h.size_bytes] at hcontent
    exact Nat.min_eq_left hcontent
  have hevents : p.eventsOffset ≤ (Cursor.ofPrefix (p.bytes file) p.contentSize).limit := by
    rw [hlimit]
    exact h.events_le
  unfold PacketReader.ofPacket Cursor.seek
  rw [dif_pos hevents]
  exact ⟨_, rfl, rfl, hlimit, rfl⟩

end Packet.Framed

namespace PacketIndex

lemma Entry.framed {p : Packet} {next : Option ℕ}
    (h : Entry metadata options file index offset (.ok p) next) :
    p.Framed file ∧ p.index = index ∧ p.offset = offset ∧ next = some p.endOffset := by
  cases h with
  | packet index_eq offset_eq sizes events_le content_le =>
    have inside := sizes.inside
    rw [← offset_eq] at inside
    refine ⟨⟨sizes.positive, sizes.whole, content_le, events_le, inside⟩, index_eq, offset_eq, ?_⟩
    rw [← offset_eq, Packet.endOffset]

/-- The located packets follow each other. -/
lemma Framing.ascending (h : Framing metadata options file index offset entries) :
    entries.packets.Pairwise fun p q => p.endOffset ≤ q.offset := by
  induction h with
  | finish => exact .nil
  | next first others ih =>
    rename_i entry rest
    cases entry with
    | error error => exact ih
    | ok p =>
      obtain ⟨hframed, -, -, hnext⟩ := first.framed
      cases hnext
      refine List.pairwise_cons.mpr ⟨fun q hq => ?_, ih⟩
      obtain ⟨i, start, next, hle, hentry⟩ := others.exists_entry_of_mem hq
      obtain ⟨-, -, hstart, -⟩ := hentry.framed
      rw [hstart]
      exact hle
  | last only =>
    rename_i entry
    cases entry with
    | error error => exact .nil
    | ok p => exact List.pairwise_singleton _ p

/-- Where there are no errors, the packets make up the rest of the file. -/
lemma Framing.tiles (h : Framing metadata options file index offset entries)
    (hclean : ∀ error, .error error ∉ entries) :
    entries.packets.foldr (fun p rest => p.bytes file ++ rest) .empty =
      file.extract offset file.size := by
  induction h with
  | finish =>
    apply ByteArray.ext
    rw [ByteArray.data_extract, Array.extract_empty_of_stop_le_start (Nat.le_refl _)]
    rfl
  | next first others ih =>
    rename_i entry rest
    cases entry with
    | error error => exact absurd List.mem_cons_self (hclean error)
    | ok p =>
      obtain ⟨hframed, -, hoffset, hnext⟩ := first.framed
      cases hnext
      have hrest := ih fun error hmem => hclean error (List.mem_cons_of_mem _ hmem)
      rw [packets_ok_cons, List.foldr_cons, hframed.bytes_eq, hrest, ← hoffset, ByteArray.extract_append_extract,
        Nat.min_eq_left (Nat.le_of_lt hframed.offset_lt), Nat.max_eq_right hframed.inside]
  | last only =>
    rename_i entry
    cases entry with
    | error error => exact absurd List.mem_cons_self (hclean error)
    | ok p =>
      obtain ⟨-, -, -, hnext⟩ := only.framed
      cases hnext

/-! ## The index of a file -/

/-- **What an index says of its file.** -/
structure FramesFile (metadata : Metadata) (options : ReadOptions) (file : ByteArray)
    (index : PacketIndex) : Prop where
  /-- The entries lead from one to the next, from the start of the file on. -/
  framing : Framing metadata options file 0 0 index
  /-- A packet knows its place among the entries. -/
  index_eq : ∀ (i : ℕ) (p : Packet), index[i]? = some (.ok p) → p.index = i
  /-- Packets are inside the file. -/
  framed : ∀ p ∈ index.packets, p.Framed file
  /-- Packets follow each other and have no bytes in common. -/
  ascending : index.packets.Pairwise fun p q => p.offset < p.endOffset ∧ p.endOffset ≤ q.offset
  /-- Without errors the packets are the whole file, one after the other. -/
  tiles : (∀ error, .error error ∉ index) →
    index.packets.foldr (fun p rest => p.bytes file ++ rest) .empty = file
  /-- A packet can be read, from its own bytes, of which there are some. -/
  readable : ∀ p ∈ index.packets, p.bytes file = file.extract p.offset p.endOffset ∧
    p.bytes file ≠ .empty ∧ ∃ r, PacketReader.ofPacket file p = .ok r ∧
      r.cursor.data = p.bytes file ∧ r.cursor.limit = p.contentSize ∧
      r.cursor.position = p.eventsOffset

/-- **Packets frame their file**, whatever its bytes are. -/
theorem framesFile_ofFile (metadata : Metadata) (options : ReadOptions) (file : ByteArray) :
    FramesFile metadata options file (ofFile metadata options file) := by
  have hframing := framing_ofFile metadata options file
  have hframed : ∀ p ∈ (ofFile metadata options file).packets, p.Framed file := by
    intro p hp
    obtain ⟨_, _, _, -, hentry⟩ := hframing.exists_entry_of_mem hp
    exact hentry.framed.1
  refine ⟨hframing, fun i p hi => ?_, hframed, ?_, fun hclean => ?_, fun p hp => ?_⟩
  · obtain ⟨_, _, -, hentry⟩ := hframing.exists_entry hi
    rw [hentry.framed.2.1, Nat.zero_add]
  · refine hframing.ascending.imp_of_mem fun hp _ hle => ?_
    exact ⟨(hframed _ hp).offset_lt, hle⟩
  · rw [hframing.tiles hclean, ByteArray.extract_zero_size]
  · have hpacket := hframed p hp
    refine ⟨hpacket.bytes_eq, fun hempty => ?_, hpacket.exists_reader⟩
    have hsize := hpacket.size_bytes
    rw [hempty] at hsize
    exact absurd hsize.symm (Nat.ne_of_gt hpacket.positive)

end PacketIndex

end Runs

end CommonTrace
