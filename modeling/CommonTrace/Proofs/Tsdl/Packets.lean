import CommonTrace.Tsdl.Text
import Mathlib.Algebra.Ring.Nat
import Mathlib.Data.Nat.Notation
import Mathlib.Tactic.Lemma

/-!
# Packets of metadata

A metadata file that is cut into packets is read by walking over them.  `MetadataPacket.encode` is what a
packet is in a file, in either byte order; packets that are written one after the other are read back as
their joined texts (`metadataText_flatMap_encode`).

Of other bytes it is said what the walk meets (`Walk`): at each offset a header that is in order, and then
the walk goes on behind the packet, or a fault, and then it ends there.  It goes on by at least a header each
time, so it ends, and the bound that `joinPackets` has on the number of packets is never felt
(`exists_walk`).
-/

namespace CommonTrace

/-! ## Numbers in bytes -/

/-- A number spelled in the given order with `count` bytes. -/
def ByteOrder.spelling : ByteOrder → ℕ → ℕ → List UInt8
  | _, 0, _ => []
  | .little, count + 1, n => UInt8.ofNat n :: ByteOrder.little.spelling count (n / 256)
  | .big, count + 1, n => ByteOrder.big.spelling count (n / 256) ++ [UInt8.ofNat n]

namespace ByteOrder

@[simp] lemma length_spelling (order : ByteOrder) (count n : ℕ) :
    (order.spelling count n).length = count := by
  induction count generalizing n with
  | zero => cases order <;> rfl
  | succ count ih => cases order <;> simp [spelling, ih]

/-- What is spelled is read. -/
lemma value_spelling (order : ByteOrder) {count n : ℕ} (h : n < 256 ^ count) :
    order.value (order.spelling count n) = n := by
  induction count generalizing n with
  | zero =>
    rw [Nat.pow_zero] at h
    cases order <;> simp [spelling] <;> omega
  | succ count ih =>
    have hrest : n / 256 < 256 ^ count := by
      rw [Nat.div_lt_iff_lt_mul (by decide), ← Nat.pow_succ]
      exact h
    have hbyte : (UInt8.ofNat n).toNat = n % 256 := UInt8.toNat_ofNat'
    cases order with
    | little =>
      rw [spelling, value_little_cons, ih hrest, hbyte]
      omega
    | big =>
      rw [spelling, value_big_concat, ih hrest, hbyte]
      omega

end ByteOrder

namespace Tsdl

/-! ## Packets that are written -/

/-- A packet of metadata. -/
structure MetadataPacket where
  /-- The identifier of the trace. -/
  uuid : Vector UInt8 16
  /-- The checksum. -/
  checksum : Vector UInt8 4
  /-- The checksum scheme. -/
  scheme : UInt8
  /-- The major version. -/
  major : UInt8
  /-- The minor version. -/
  minor : UInt8
  /-- The part of the text that the packet has. -/
  body : List UInt8
  /-- What follows the content. -/
  padding : List UInt8

namespace MetadataPacket

variable {order : ByteOrder} {p : MetadataPacket}

/-- The content size in bits. -/
def contentSize (p : MetadataPacket) : ℕ :=
  8 * (packetHeaderSize + p.body.length)

/-- The packet size in bits. -/
def packetSize (p : MetadataPacket) : ℕ :=
  p.contentSize + 8 * p.padding.length

/-- The header: neither compressed nor encrypted. -/
def header (order : ByteOrder) (p : MetadataPacket) : List UInt8 :=
  order.spelling 4 packetMagic ++ p.uuid.toList ++ p.checksum.toList ++
    order.spelling 4 p.contentSize ++ order.spelling 4 p.packetSize ++
    [0, 0, p.scheme, p.major, p.minor]

/-- The packet as it is in a file. -/
def encode (order : ByteOrder) (p : MetadataPacket) : List UInt8 :=
  p.header order ++ p.body ++ p.padding

/-- The sizes fit in the header. -/
def Fits (p : MetadataPacket) : Prop :=
  p.packetSize < 2 ^ 32

instance (p : MetadataPacket) : Decidable p.Fits :=
  inferInstanceAs (Decidable (_ < _))

lemma length_header (order : ByteOrder) (p : MetadataPacket) :
    (p.header order).length = packetHeaderSize := by
  simp [header, packetHeaderSize]

lemma length_encode (order : ByteOrder) (p : MetadataPacket) :
    (p.encode order).length = packetHeaderSize + p.body.length + p.padding.length := by
  rw [encode, List.length_append, List.length_append, length_header]

end MetadataPacket

/-- A number is read where it stands. -/
lemma headerNumber_of_eq {order : ByteOrder} {bytes before field rest : List UInt8} {offset count : ℕ}
    (h : bytes = before ++ field ++ rest) (hbefore : before.length = offset) (hfield : field.length = count) :
    headerNumber order bytes offset count = order.value field := by
  rw [headerNumber, h, List.append_assoc, List.drop_left' hbefore, List.take_left' hfield]

namespace MetadataPacket

variable {order : ByteOrder} {p : MetadataPacket}

/-- The numbers in a header that has been written. -/
structure Announces (order : ByteOrder) (p : MetadataPacket) (bytes : List UInt8) : Prop where
  magic : headerNumber order bytes 0 4 = packetMagic
  content : headerNumber order bytes 24 4 = p.contentSize
  packet : headerNumber order bytes 28 4 = p.packetSize
  compression : headerNumber order bytes 32 1 = 0
  encryption : headerNumber order bytes 33 1 = 0

lemma Fits.announces (h : p.Fits) (order : ByteOrder) (rest : List UInt8) :
    p.Announces order (p.encode order ++ rest) := by
  have hpacket : p.packetSize < 256 ^ 4 := h
  have hcontent : p.contentSize < 256 ^ 4 := Nat.lt_of_le_of_lt (Nat.le_add_right _ _) hpacket
  have hzero : order.value [0] = 0 := by cases order <;> rfl
  -- The bytes of the packet, cut before and behind each of the numbers.
  let behind := p.body ++ p.padding ++ rest
  let ids := order.spelling 4 packetMagic ++ p.uuid.toList ++ p.checksum.toList
  let sizes := order.spelling 4 p.contentSize ++ order.spelling 4 p.packetSize
  have hmagic : p.encode order ++ rest = [] ++ order.spelling 4 packetMagic ++
      (p.uuid.toList ++ p.checksum.toList ++ sizes ++ [0, 0, p.scheme, p.major, p.minor] ++ behind) := by
    simp [encode, header, sizes, behind]
  have hfirst : p.encode order ++ rest = ids ++ order.spelling 4 p.contentSize ++
      (order.spelling 4 p.packetSize ++ [0, 0, p.scheme, p.major, p.minor] ++ behind) := by
    simp [encode, header, ids, behind]
  have hsecond : p.encode order ++ rest = ids ++ order.spelling 4 p.contentSize ++
      order.spelling 4 p.packetSize ++ ([0, 0, p.scheme, p.major, p.minor] ++ behind) := by
    simp [encode, header, ids, behind]
  have hthird : p.encode order ++ rest = ids ++ sizes ++ [0] ++
      ([0, p.scheme, p.major, p.minor] ++ behind) := by
    simp [encode, header, ids, sizes, behind]
  have hfourth : p.encode order ++ rest = ids ++ sizes ++ [0] ++ [0] ++
      ([p.scheme, p.major, p.minor] ++ behind) := by
    simp [encode, header, ids, sizes, behind]
  refine ⟨?_, ?_, ?_, ?_, ?_⟩
  · rw [headerNumber_of_eq hmagic List.length_nil (by simp), order.value_spelling (by decide)]
  · rw [headerNumber_of_eq hfirst (by simp [ids]) (by simp), order.value_spelling hcontent]
  · rw [headerNumber_of_eq hsecond (by simp [ids]) (by simp), order.value_spelling hpacket]
  · rw [headerNumber_of_eq hthird (by simp [ids, sizes]) List.length_singleton, hzero]
  · rw [headerNumber_of_eq hfourth (by simp [ids, sizes]) List.length_singleton, hzero]

/-- **A packet that has been written is taken** from the front of a file. -/
lemma Fits.takePacket_encode (h : p.Fits) (order : ByteOrder) (rest : List UInt8) :
    takePacket order (p.encode order ++ rest) = .ok (p.body, rest) := by
  have hannounces := h.announces order rest
  have hlength : (p.encode order ++ rest).length =
      packetHeaderSize + p.body.length + p.padding.length + rest.length := by
    rw [List.length_append, length_encode]
  have hcontent : p.contentSize / 8 = packetHeaderSize + p.body.length :=
    Nat.mul_div_cancel_left _ (by decide)
  have hpacket : p.packetSize / 8 = (p.encode order).length := by
    rw [packetSize, contentSize, ← Nat.mul_add, Nat.mul_div_cancel_left _ (by decide), length_encode]
  have hbody : ((p.encode order ++ rest).take (packetHeaderSize + p.body.length)).drop packetHeaderSize =
      p.body := by
    rw [List.drop_take, Nat.add_sub_cancel_left, encode, List.append_assoc, List.append_assoc,
      List.drop_left' (length_header order p), List.take_left' rfl]
  unfold takePacket
  simp only [hannounces.magic, hannounces.content, hannounces.packet, hannounces.compression,
    hannounces.encryption, hcontent, hpacket, hbody, List.drop_left]
  rw [if_neg (by omega), if_neg (by simp), if_neg (by simp), if_neg (by rw [length_encode]; omega),
    if_neg (by omega)]

end MetadataPacket

/-- **Packets that have been written are joined.** -/
lemma joinPackets_flatMap_encode {order : ByteOrder} {packets : List MetadataPacket}
    (h : ∀ p ∈ packets, p.Fits) (offset : ℕ) {count : ℕ} (hcount : packets.length ≤ count) :
    joinPackets order offset (packets.flatMap (MetadataPacket.encode order)) count =
      .ok (packets.flatMap MetadataPacket.body) := by
  induction packets generalizing offset count with
  | nil => cases count <;> rfl
  | cons p packets ih =>
    obtain ⟨count, rfl⟩ : ∃ n, count = n + 1 := ⟨count - 1, by simp at hcount; omega⟩
    have hne : (p.encode order ++ packets.flatMap (MetadataPacket.encode order)).isEmpty = false := by
      simp [MetadataPacket.encode, MetadataPacket.header]
    obtain ⟨hfits, hothers⟩ := List.forall_mem_cons.mp h
    have hrest := fun offset => ih hothers offset (Nat.le_of_succ_le_succ hcount)
    rw [List.flatMap_cons, List.flatMap_cons, joinPackets, hne, hfits.takePacket_encode]
    simp only [Bool.false_eq_true, if_false, hrest]
    rfl

lemma length_le_length_flatMap_encode (order : ByteOrder) (packets : List MetadataPacket) :
    packets.length ≤ (packets.flatMap (MetadataPacket.encode order)).length := by
  induction packets with
  | nil => exact Nat.zero_le _
  | cons p packets ih =>
    rw [List.flatMap_cons, List.length_append, List.length_cons, p.length_encode, packetHeaderSize]
    omega

/-- A file of packets starts with the magic number, and this shows its byte order. -/
lemma packetByteOrder?_of_prefix {order : ByteOrder} {bytes : List UInt8}
    (h : order.spelling 4 packetMagic <+: bytes) : packetByteOrder? bytes = some order := by
  obtain ⟨rest, rfl⟩ := h
  unfold packetByteOrder?
  rw [List.take_left' (order.length_spelling 4 packetMagic)]
  cases order <;> decide

lemma magic_prefix_encode (order : ByteOrder) (p : MetadataPacket) (rest : List UInt8) :
    order.spelling 4 packetMagic <+: p.encode order ++ rest := by
  simp only [MetadataPacket.encode, MetadataPacket.header, List.append_assoc]
  exact List.prefix_append _ _

/-- **What has been written is read**, also if a character has been split between two packets. -/
lemma metadataText_flatMap_encode (order : ByteOrder) {packets : List MetadataPacket}
    (hne : packets ≠ []) (h : ∀ p ∈ packets, p.Fits) :
    metadataText (packets.flatMap (MetadataPacket.encode order)) =
      .ok (Utf8.decode (packets.flatMap MetadataPacket.body)) := by
  obtain ⟨p, others, rfl⟩ := List.exists_cons_of_ne_nil hne
  have horder : packetByteOrder? ((p :: others).flatMap (MetadataPacket.encode order)) = some order :=
    packetByteOrder?_of_prefix (magic_prefix_encode order p _)
  rw [metadataText, horder]
  dsimp only
  rw [joinPackets_flatMap_encode h 0 (length_le_length_flatMap_encode order _)]
  rfl

/-! ## Packets that are met -/

section Walks

variable {order : ByteOrder} {bytes : List UInt8} {offset : ℕ}

/-- There is a header at a byte of a file that is in order: its content takes `content` bytes, which are all
there, and its packet `packet` bytes, which need not be. -/
structure HeaderAt (order : ByteOrder) (bytes : List UInt8) (offset content packet : ℕ) : Prop where
  inside : offset + 37 ≤ bytes.length
  magic : headerNumber order bytes offset 4 = 0x75D11D57
  compression : headerNumber order bytes (offset + 32) 1 = 0
  encryption : headerNumber order bytes (offset + 33) 1 = 0
  content_eq : content = headerNumber order bytes (offset + 24) 4 / 8
  packet_eq : packet = headerNumber order bytes (offset + 28) 4 / 8
  header_le : 37 ≤ content
  content_le : content ≤ packet
  content_inside : offset + content ≤ bytes.length

/-- What is wrong at a byte of a file where a header should be. -/
inductive FaultAt (order : ByteOrder) (bytes : List UInt8) (offset : ℕ) : PacketFault → Prop where
  | truncatedHeader (h : bytes.length < offset + 37) : FaultAt order bytes offset .truncatedHeader
  | badMagic (h : headerNumber order bytes offset 4 ≠ 0x75D11D57) : FaultAt order bytes offset .badMagic
  | encoded (h : headerNumber order bytes (offset + 32) 1 ≠ 0 ∨
      headerNumber order bytes (offset + 33) 1 ≠ 0) : FaultAt order bytes offset .encoded
  | invalidSizes (h : headerNumber order bytes (offset + 24) 4 / 8 < 37 ∨
      headerNumber order bytes (offset + 28) 4 / 8 < headerNumber order bytes (offset + 24) 4 / 8) :
      FaultAt order bytes offset .invalidSizes
  | beyondFile (h : bytes.length < offset + headerNumber order bytes (offset + 24) 4 / 8) :
      FaultAt order bytes offset .beyondFile

/-- A header is in order, or there is a fault. -/
lemma HeaderAt.not_faultAt {content packet : ℕ} (h : HeaderAt order bytes offset content packet)
    (fault : PacketFault) : ¬FaultAt order bytes offset fault := by
  have hinside := h.inside
  have hheader := h.header_le
  have hcontent := h.content_le
  have hfile := h.content_inside
  rw [h.content_eq] at hheader hcontent hfile
  rw [h.packet_eq] at hcontent
  rintro (hshort | hmagic | hencoded | hsizes | hbeyond)
  · omega
  · exact hmagic h.magic
  · rcases hencoded with hne | hne
    · exact hne h.compression
    · exact hne h.encryption
  · omega
  · omega

/-- **A walk over the packets of a file** from a byte on, packet size by packet size, with the part of the
text in each packet.  It comes to the end of the file, or to a fault. -/
inductive Walk (order : ByteOrder) (bytes : List UInt8) :
    ℕ → List (List UInt8) → Option PacketError → Prop where
  | done {offset : ℕ} (h : bytes.length ≤ offset) : Walk order bytes offset [] none
  | broken {offset : ℕ} {fault : PacketFault} (hinside : offset < bytes.length)
      (h : FaultAt order bytes offset fault) : Walk order bytes offset [] (some ⟨offset, fault⟩)
  | step {offset content packet : ℕ} {texts : List (List UInt8)} {error : Option PacketError}
      (h : HeaderAt order bytes offset content packet)
      (rest : Walk order bytes (offset + packet) texts error) :
      Walk order bytes offset (((bytes.drop (offset + 37)).take (content - 37)) :: texts) error

/-- Every packet takes at least a header, so a walk comes to its end. -/
lemma Walk.length_le {texts : List (List UInt8)} {error : Option PacketError}
    (h : Walk order bytes offset texts error) : 37 * texts.length ≤ bytes.length - offset := by
  induction h with
  | done h => simp
  | broken hinside h => simp
  | step h rest ih =>
    have hinside := h.inside
    have hheader := h.header_le
    have hpacket := h.content_le
    rw [List.length_cons]
    omega

/-- If a walk comes to the end of the file, any other one does so by the same packets. -/
lemma Walk.unique {texts texts' : List (List UInt8)} {error : Option PacketError}
    (h : Walk order bytes offset texts none) (h' : Walk order bytes offset texts' error) :
    texts' = texts ∧ error = none := by
  generalize hnone : (none : Option PacketError) = success at h
  induction h generalizing texts' error with
  | done hend =>
    cases h' with
    | done => exact ⟨rfl, rfl⟩
    | broken hinside => omega
    | step hheader =>
      have hinside := hheader.inside
      omega
  | broken => cases hnone
  | step hheader hrest ih =>
    cases h' with
    | done hend =>
      have hinside := hheader.inside
      omega
    | broken hinside hfault => exact absurd hfault (hheader.not_faultAt _)
    | step hheader' hrest' =>
      obtain rfl := hheader.content_eq.trans hheader'.content_eq.symm
      obtain rfl := hheader.packet_eq.trans hheader'.packet_eq.symm
      obtain ⟨rfl, hnone⟩ := ih hrest' hnone
      exact ⟨rfl, hnone⟩

lemma headerNumber_drop (order : ByteOrder) (bytes : List UInt8) (offset start count : ℕ) :
    headerNumber order (bytes.drop offset) start count = headerNumber order bytes (offset + start) count := by
  rw [headerNumber, List.drop_drop, headerNumber]

/-- What is taken at a byte of a file is a packet that is in order there, or else there is a fault. -/
lemma takePacket_drop (order : ByteOrder) (bytes : List UInt8) (offset : ℕ) :
    (∃ content packet, HeaderAt order bytes offset content packet ∧
      takePacket order (bytes.drop offset) =
        .ok ((bytes.drop (offset + 37)).take (content - 37), bytes.drop (offset + packet))) ∨
    ∃ fault, FaultAt order bytes offset fault ∧
      takePacket order (bytes.drop offset) = .error fault := by
  unfold takePacket
  simp only [headerNumber_drop, List.length_drop, packetHeaderSize, packetMagic, Nat.add_zero]
  split
  · exact .inr ⟨_, .truncatedHeader (by omega), rfl⟩
  split
  · rename_i hmagic
    exact .inr ⟨_, .badMagic hmagic, rfl⟩
  split
  · rename_i hencoded
    exact .inr ⟨_, .encoded hencoded, rfl⟩
  split
  · rename_i hsizes
    exact .inr ⟨_, .invalidSizes hsizes, rfl⟩
  split
  · exact .inr ⟨_, .beyondFile (by omega), rfl⟩
  · rename_i hinside hmagic hencoded hsizes hfile
    obtain ⟨hcompression, hencryption⟩ := not_or.mp hencoded
    refine .inl ⟨headerNumber order bytes (offset + 24) 4 / 8,
      headerNumber order bytes (offset + 28) 4 / 8, ?_, ?_⟩
    · exact
        { inside := by omega
          magic := not_not.mp hmagic
          compression := not_not.mp hcompression
          encryption := not_not.mp hencryption
          content_eq := rfl
          packet_eq := rfl
          header_le := by omega
          content_le := by omega
          content_inside := by omega }
    · rw [List.drop_take, List.drop_drop, List.drop_drop]

/-- Behind a packet it goes on with the next one, and behind the last one it does not matter where. -/
lemma joinPackets_behind (order : ByteOrder) (bytes : List UInt8) (offset packet count : ℕ) :
    joinPackets order (offset + ((bytes.drop offset).length - (bytes.drop (offset + packet)).length))
        (bytes.drop (offset + packet)) count =
      joinPackets order (offset + packet) (bytes.drop (offset + packet)) count := by
  rw [List.length_drop, List.length_drop]
  rcases Nat.le_total (offset + packet) bytes.length with hinside | hbehind
  · have hnext : offset + (bytes.length - offset - (bytes.length - (offset + packet))) =
        offset + packet := by
      omega
    rw [hnext]
  · rw [List.drop_eq_nil_of_le hbehind]
    cases count <;> rfl

/-- What a file gives after a walk over its packets. -/
def afterWalk {α : Type} (result : α) : Option PacketError → Except PacketError α
  | some error => .error error
  | none => .ok result

/-- **Joining packets is walking over them**, when at least as many packets are allowed as there are bytes
left. -/
lemma exists_walk (order : ByteOrder) (bytes : List UInt8) {offset count : ℕ}
    (hcount : bytes.length - offset ≤ count) :
    ∃ texts error, Walk order bytes offset texts error ∧
      joinPackets order offset (bytes.drop offset) count = afterWalk texts.flatten error := by
  induction count generalizing offset with
  | zero => exact ⟨[], none, .done (by omega), rfl⟩
  | succ count ih =>
    rcases Nat.lt_or_ge offset bytes.length with hinside | hend
    · have hne : (bytes.drop offset).isEmpty = false := by
        simpa using hinside
      rcases takePacket_drop order bytes offset with ⟨content, packet, hheader, htake⟩ | ⟨fault, hfault, htake⟩
      · have hmoved : 37 ≤ packet := Nat.le_trans hheader.header_le hheader.content_le
        obtain ⟨texts, error, hwalk, hjoin⟩ := ih (by omega : bytes.length - (offset + packet) ≤ count)
        refine ⟨_, error, .step hheader hwalk, ?_⟩
        rw [joinPackets, hne, htake]
        simp only [Bool.false_eq_true, if_false, joinPackets_behind, hjoin]
        cases error <;> rfl
      · refine ⟨[], some ⟨offset, fault⟩, .broken hinside hfault, ?_⟩
        rw [joinPackets, hne, htake]
        rfl
    · refine ⟨[], none, .done hend, ?_⟩
      rw [joinPackets, List.drop_eq_nil_of_le hend]
      rfl

end Walks

/-- **Metadata in packets.**  Packets that are written one after the other, in either byte order, are read as
the text of their joined bodies.  Any bytes that start with the magic number are walked over from the start
on, and they are read if and only if the walk comes to the end of the file without a fault. -/
theorem metadataText_packets (order : ByteOrder) :
    (∀ packets : List MetadataPacket, packets ≠ [] → (∀ p ∈ packets, p.Fits) →
      metadataText (packets.flatMap (MetadataPacket.encode order)) =
        .ok (Utf8.decode (packets.flatMap MetadataPacket.body))) ∧
    ∀ bytes, order.spelling 4 packetMagic <+: bytes →
      (∃ texts error, Walk order bytes 0 texts error ∧ 37 * texts.length ≤ bytes.length ∧
        metadataText bytes = afterWalk (Utf8.decode texts.flatten) error) ∧
      ∀ text, metadataText bytes = .ok text ↔
        ∃ texts, Walk order bytes 0 texts none ∧ text = Utf8.decode texts.flatten := by
  refine ⟨fun packets hne hfits => metadataText_flatMap_encode order hne hfits, fun bytes hmagic => ?_⟩
  obtain ⟨texts, error, hwalk, hjoin⟩ :=
    exists_walk order bytes (by omega : bytes.length - 0 ≤ bytes.length)
  have hresult : metadataText bytes = afterWalk (Utf8.decode texts.flatten) error := by
    rw [List.drop_zero] at hjoin
    rw [metadataText, packetByteOrder?_of_prefix hmagic]
    dsimp only
    rw [hjoin]
    cases error <;> rfl
  refine ⟨⟨texts, error, hwalk, hwalk.length_le, hresult⟩, fun text => ⟨fun htext => ?_, ?_⟩⟩
  · rw [hresult] at htext
    cases error with
    | some error => cases htext
    | none => exact ⟨texts, hwalk, (Except.ok.inj htext).symm⟩
  · rintro ⟨texts', hcomplete, rfl⟩
    obtain ⟨rfl, rfl⟩ := hcomplete.unique hwalk
    exact hresult

section Example

/-- A packet with the given part of a text and as many bytes of padding. -/
def MetadataPacket.plain (body : List UInt8) (padding : ℕ) : MetadataPacket where
  uuid := Vector.replicate 16 0xAB
  checksum := Vector.replicate 4 0
  scheme := 0
  major := 1
  minor := 8
  body
  padding := List.replicate padding 0

/-- The two bytes of a letter are in different packets, with padding between them. -/
def splitLetter : List MetadataPacket :=
  [.plain [0x61, 0xC3] 3, .plain [0xA9] 0]

/-- The letter is read whole, and the walk over the packets comes to the end of the file. -/
theorem metadataText_packets_splitLetter :
    metadataText (splitLetter.flatMap (MetadataPacket.encode .big)) = .ok "aé" ∧
      ∃ texts, Walk .big (splitLetter.flatMap (MetadataPacket.encode .big)) 0 texts none ∧
        "aé" = Utf8.decode texts.flatten := by
  obtain ⟨hwritten, hmet⟩ := metadataText_packets .big
  have hdecode : Utf8.decode (splitLetter.flatMap MetadataPacket.body) = "aé" := by decide +kernel
  have htext := hwritten splitLetter (by decide) (by decide)
  rw [hdecode] at htext
  obtain ⟨-, hiff⟩ := hmet _ (magic_prefix_encode .big _ _)
  exact ⟨htext, (hiff _).mp htext⟩

end Example

end Tsdl

end CommonTrace
