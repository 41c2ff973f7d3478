import CommonTrace.Proofs.Field.Growth
import CommonTrace.Proofs.Packet.Framing
import CommonTrace.Proofs.Packet.Lookups

/-!
# Where an index takes its packets from

A packet in an index is what stands before its events says it is, except for the two entries that are
made when the lost events are counted.  `Packet.located` is the packet without these, and
`PacketIndex.exists_head_of_mem` gives the head from which it has been made, with the field of the
packet context that goes by a name (`Packet.contextField?`).

Counting goes through the index from front to back and carries a running total and the end of the last
packet along; what it makes of a packet follows from these two (`PacketIndex.eq_countLost_of_split`).
-/

namespace CommonTrace

/-! ## The context of a packet -/

namespace Packet

/-- A field of the context. -/
def contextField? (p : Packet) (name : String) : Option Field :=
  (p.scopes.block? .streamPacketContext).bind fun scope => p.scopes.field? scope name

/-- A number in the context. -/
def contextNumber? (p : Packet) (name : String) : Option ℕ :=
  (p.contextField? name).bind Field.unsigned?

end Packet

section Blocks

variable {limit : ℕ} {block : StaticScope} {t : Option FieldType} {s s' : DecodeState}

lemma Arena.block?_openBlock (a : Arena) (block other : StaticScope) :
    (a.openBlock block).2.block? other =
      if other = block then some (a.openBlock block).1 else a.block? other := by
  have hothers : (a.blocks.filter (·.1 ≠ block)).lookup other =
      if other = block then none else a.blocks.lookup other := by
    induction a.blocks with
    | nil => simp
    | cons first rest ih =>
      obtain ⟨name, scope⟩ := first
      by_cases hname : name = block
      · subst hname
        by_cases hother : other = name
        · simpa [hother] using ih
        · have hne : (other == name) = false := by simpa using hother
          simpa [hother, List.lookup_cons, hne] using ih
      · by_cases hother : other = name
        · subst hother
          simp [hname]
        · have hne : (other == name) = false := by simpa using hother
          simpa [hname, List.lookup_cons, hne] using ih
  simp only [block?, openBlock, List.lookup_append, hothers]
  by_cases hother : other = block
  · simp [hother]
  · have hne : (other == block) = false := by simpa using hother
    simp [hother, List.lookup_cons, hne]

/-- A block that is decoded is registered, and the others stay where they are. -/
lemma FieldType.block?_of_decodeBlock {t : FieldType} {scope : ScopeId}
    (h : t.decodeBlock limit block s = .ok scope s') (other : StaticScope) :
    s'.scopes.arena.block? other =
      if other = block then some scope else s.scopes.arena.block? other := by
  obtain ⟨scope', s₁, hopen, h⟩ := DecodeM.ok_of_bind h
  obtain ⟨_, s₂, hcontents, hreturn⟩ := DecodeM.ok_of_bind h
  cases hopen
  cases hreturn
  have hgrows := (t.decodeContents_grows limit block _).of_ok hcontents
  have hblocks : s'.scopes.arena.block? other =
      (s.scopes.arena.openBlock block).2.block? other := by
    rw [Arena.block?, hgrows.blocks]
    rfl
  rw [hblocks, Arena.block?_openBlock]
  rfl

namespace PacketHead

lemma block?_of_decodeDeclared {scope : Option ScopeId}
    (h : decodeDeclared limit block t s = .ok scope s') (other : StaticScope) :
    s'.scopes.arena.block? other =
      if other = block then scope.or (s.scopes.arena.block? other)
      else s.scopes.arena.block? other := by
  cases t with
  | none =>
    cases h
    simp
  | some t =>
    obtain ⟨scope', hblock, rfl⟩ := DecodeM.ok_of_map h
    rw [t.block?_of_decodeBlock hblock]
    simp

variable {metadata : Metadata} {options : ReadOptions} {data : ByteArray} {head : PacketHead}

/-- The context of a packet is the block of that name. -/
lemma block?_of_ofBytes (h : ofBytes metadata options data = .ok head) :
    head.scopes.block? .streamPacketContext = head.context := by
  obtain ⟨⟨header, s₁⟩, hheader, h⟩ := exists_of_bind_eq_ok h
  obtain ⟨stream, -, h⟩ := exists_of_bind_eq_ok h
  obtain ⟨⟨context, s₂⟩, hcontext, h⟩ := exists_of_bind_eq_ok h
  cases h
  have hfirst := block?_of_decodeDeclared (ok_of_run hheader) .streamPacketContext
  have hsecond := block?_of_decodeDeclared (ok_of_run hcontext) .streamPacketContext
  -- Before the header no block is registered.
  have hempty : ScopeChain.empty.arena.block? .streamPacketContext = none := rfl
  rw [if_neg (by decide), hempty] at hfirst
  simpa [hfirst] using hsecond

end PacketHead

end Blocks

/-! ## Counting lost events -/

namespace Packet

/-- The packet before the lost events have been counted. -/
def located (p : Packet) : Packet :=
  { p with eventsLost := 0, lostSince := none }

@[simp] lemma index_located (p : Packet) : p.located.index = p.index :=
  rfl

@[simp] lemma offset_located (p : Packet) : p.located.offset = p.offset :=
  rfl

@[simp] lemma stop_located (p : Packet) : p.located.stop = p.stop :=
  rfl

@[simp] lemma eventsDiscarded_located (p : Packet) :
    p.located.eventsDiscarded = p.eventsDiscarded :=
  rfl

@[simp] lemma located_countLost (p : Packet) (discarded : ℕ) (previousStop : Option Instant) :
    (p.countLost discarded previousStop).located = p.located := by
  unfold countLost
  split
  · split <;> rfl
  · rfl

@[simp] lemma stop_countLost (p : Packet) (discarded : ℕ) (previousStop : Option Instant) :
    (p.countLost discarded previousStop).stop = p.stop := by
  rw [← stop_located, located_countLost, stop_located]

@[simp] lemma eventsDiscarded_countLost (p : Packet) (discarded : ℕ)
    (previousStop : Option Instant) :
    (p.countLost discarded previousStop).eventsDiscarded = p.eventsDiscarded := by
  rw [← eventsDiscarded_located, located_countLost, eventsDiscarded_located]

@[simp] lemma endOffset_countLost (p : Packet) (discarded : ℕ) (previousStop : Option Instant) :
    (p.countLost discarded previousStop).endOffset = p.endOffset := by
  have h : ∀ q : Packet, q.located.endOffset = q.endOffset := fun _ => rfl
  rw [← h, located_countLost, h]

@[simp] lemma contextNumber?_countLost (p : Packet) (discarded : ℕ)
    (previousStop : Option Instant) :
    (p.countLost discarded previousStop).contextNumber? = p.contextNumber? := by
  have h : ∀ q : Packet, q.located.contextNumber? = q.contextNumber? := fun _ => rfl
  rw [← h, located_countLost, h]

variable {metadata : Metadata} {options : ReadOptions} {file : ByteArray} {p : Packet}
  {head : PacketHead}

/-- A packet with sound sizes is the one that its head describes. -/
lemma eq_of_ofHead {index offset available : ℕ}
    (h : ofHead metadata index offset available head = .ok p) :
    p =
      { index, offset
        contentSize := (head.sizes available).1
        packetSize := (head.sizes available).2
        streamId := head.stream.id.getD 0
        stream := head.stream
        start := head.instant? metadata "timestamp_begin"
        stop := head.instant? metadata "timestamp_end"
        eventsDiscarded := head.number? "events_discarded"
        eventsLost := 0
        lostSince := none
        cpuId := head.number? "cpu_id"
        clock := head.clock?
        scopes := head.scopes
        eventsOffset := head.size } := by
  unfold ofHead at h
  dsimp only at h
  split at h
  · cases h
  split at h
  · cases h
  split at h
  · cases h
  split at h
  · cases h
  · exact (Except.ok.inj h).symm

/-- **The head of a packet**: the header and the context at its offset, of which it has been made. -/
structure FromHead (metadata : Metadata) (options : ReadOptions) (file : ByteArray) (p : Packet)
    (head : PacketHead) : Prop where
  decoded : PacketHead.ofBytes metadata options (file.extract p.offset file.size) = .ok head
  made : ofHead metadata p.index p.offset (file.size - p.offset) head = .ok p.located

/-- A packet that has just been located has a head, and no events have been lost before it. -/
lemma exists_head_of_locate {index offset : ℕ}
    (h : locate metadata options file index offset = .ok p) :
    p.located = p ∧ p.offset = offset ∧ ∃ head, p.FromHead metadata options file head := by
  unfold locate at h
  split at h
  · rename_i head hhead
    have heq := eq_of_ofHead h
    have hlocated : p.located = p := by
      rw [heq]
      rfl
    have hindex : p.index = index := congrArg Packet.index heq
    have hoffset : p.offset = offset := congrArg Packet.offset heq
    refine ⟨hlocated, hoffset, head, ?_, ?_⟩
    · rwa [hoffset]
    · rwa [hindex, hoffset, hlocated]
  · cases h

namespace FromHead

lemma stream_eq (h : p.FromHead metadata options file head) : p.stream = head.stream :=
  congrArg stream (eq_of_ofHead h.made)

lemma streamId_eq (h : p.FromHead metadata options file head) : p.streamId = head.stream.id.getD 0 :=
  congrArg streamId (eq_of_ofHead h.made)

lemma scopes_eq (h : p.FromHead metadata options file head) : p.scopes = head.scopes :=
  congrArg scopes (eq_of_ofHead h.made)

lemma start_eq (h : p.FromHead metadata options file head) :
    p.start = head.instant? metadata "timestamp_begin" :=
  congrArg start (eq_of_ofHead h.made)

lemma stop_eq (h : p.FromHead metadata options file head) :
    p.stop = head.instant? metadata "timestamp_end" :=
  congrArg stop (eq_of_ofHead h.made)

lemma eventsDiscarded_eq (h : p.FromHead metadata options file head) :
    p.eventsDiscarded = head.number? "events_discarded" :=
  congrArg eventsDiscarded (eq_of_ofHead h.made)

lemma eventsOffset_eq (h : p.FromHead metadata options file head) : p.eventsOffset = head.size :=
  congrArg eventsOffset (eq_of_ofHead h.made)

lemma clock_eq (h : p.FromHead metadata options file head) : p.clock = head.clock? :=
  congrArg clock (eq_of_ofHead h.made)

/-- What the context of the packet says is what its head says. -/
lemma contextField?_eq (h : p.FromHead metadata options file head) :
    p.contextField? = head.field? := by
  funext name
  rw [contextField?, h.scopes_eq, PacketHead.block?_of_ofBytes h.decoded]
  rfl

lemma contextNumber?_eq (h : p.FromHead metadata options file head) :
    p.contextNumber? = head.number? := by
  funext name
  rw [contextNumber?, h.contextField?_eq, PacketHead.number?]

end FromHead

end Packet

namespace PacketIndex

variable {metadata : Metadata} {options : ReadOptions} {file : ByteArray} {p : Packet}

/-- The running totals of discarded events, of the packets that have one. -/
def totals (index : PacketIndex) : List ℕ :=
  index.packets.filterMap Packet.eventsDiscarded

@[simp] lemma packets_append (index others : PacketIndex) :
    (index ++ others).packets = index.packets ++ others.packets :=
  List.filterMap_append

lemma mem_packets {index : PacketIndex} {p : Packet} : p ∈ index.packets ↔ .ok p ∈ index := by
  rw [packets, List.mem_filterMap]
  constructor
  · rintro ⟨entry, hmem, hentry⟩
    rwa [← eq_ok_of_toOption hentry]
  · intro hmem
    exact ⟨_, hmem, rfl⟩

/-! ### Located packets -/

lemma packets_countLost (discarded : ℕ) (previousStop : Option Instant) (index : PacketIndex) :
    (countLost discarded previousStop index).packets.map Packet.located =
      index.packets.map Packet.located := by
  induction index generalizing discarded previousStop with
  | nil => rfl
  | cons entry rest ih =>
    cases entry with
    | error error => simpa [countLost] using ih discarded previousStop
    | ok p => simp [countLost, ih]

lemma exists_locate_of_mem {index offset count : ℕ}
    (h : p ∈ (locateFrom metadata options file index offset count).packets) :
    ∃ index offset, Packet.locate metadata options file index offset = .ok p := by
  induction count generalizing index offset with
  | zero => simp [locateFrom] at h
  | succ count ih =>
    rw [locateFrom] at h
    split at h
    · simp at h
    · split at h
      · rename_i q hlocate
        rw [packets_ok_cons, List.mem_cons] at h
        rcases h with rfl | h
        · exact ⟨_, _, hlocate⟩
        · exact ih h
      · rw [packets_error_cons] at h
        split at h
        · exact ih h
        · simp at h

/-- **Every packet of an index has a head.** -/
theorem exists_head_of_mem (h : p ∈ (ofFile metadata options file).packets) :
    ∃ head, p.FromHead metadata options file head := by
  have hmem : p.located ∈ (ofFile metadata options file).packets.map Packet.located :=
    List.mem_map_of_mem h
  rw [ofFile, packets_countLost, List.mem_map] at hmem
  obtain ⟨q, hq, hsame⟩ := hmem
  obtain ⟨index, offset, hlocate⟩ := exists_locate_of_mem hq
  obtain ⟨-, -, head, hhead⟩ := Packet.exists_head_of_locate hlocate
  have hindex : q.index = p.index := by simpa using congrArg Packet.index hsame
  have hoffset : q.offset = p.offset := by simpa using congrArg Packet.offset hsame
  refine ⟨head, ?_, ?_⟩
  · simpa [hoffset] using hhead.decoded
  · simpa [hindex, hoffset, hsame] using hhead.made

/-! ### Counting goes on -/

/-- The last total, or the given number if there is none. -/
def lastTotal (index : PacketIndex) (discarded : ℕ) : ℕ :=
  index.totals.getLastD discarded

/-- The end of the last packet, or the given end if there is no packet. -/
def lastStop (index : PacketIndex) (previousStop : Option Instant) : Option Instant :=
  (index.packets.map Packet.stop).getLastD previousStop

lemma lastTotal_ok_cons (p : Packet) (rest : PacketIndex) (discarded : ℕ) :
    lastTotal (.ok p :: rest) discarded = lastTotal rest (p.eventsDiscarded.getD discarded) := by
  unfold lastTotal totals
  rw [packets_ok_cons]
  cases hdiscarded : p.eventsDiscarded with
  | none => rw [List.filterMap_cons_none hdiscarded, Option.getD_none]
  | some total => rw [List.filterMap_cons_some hdiscarded, List.getLastD_cons, Option.getD_some]

lemma lastStop_ok_cons (p : Packet) (rest : PacketIndex) (previousStop : Option Instant) :
    lastStop (.ok p :: rest) previousStop = lastStop rest p.stop := by
  rw [lastStop, packets_ok_cons, List.map_cons, List.getLastD_cons, lastStop]

/-- Counting changes no total. -/
lemma totals_countLost (discarded : ℕ) (previousStop : Option Instant) (index : PacketIndex) :
    (countLost discarded previousStop index).totals = index.totals := by
  have hsame : Packet.eventsDiscarded ∘ Packet.located = Packet.eventsDiscarded := rfl
  have h := congrArg (List.filterMap Packet.eventsDiscarded)
    (packets_countLost discarded previousStop index)
  simpa [List.filterMap_map, totals, hsame] using h

/-- What is counted for a packet depends on the last total and the last end before it. -/
lemma eq_countLost_of_split {index before after : PacketIndex} {discarded : ℕ}
    {previousStop : Option Instant} (hlocated : ∀ q ∈ index.packets, q.located = q)
    (h : countLost discarded previousStop index = before ++ .ok p :: after) :
    p = p.located.countLost (lastTotal before discarded) (lastStop before previousStop) := by
  induction index generalizing before discarded previousStop with
  | nil => simp [countLost] at h
  | cons entry rest ih =>
    cases entry with
    | error error =>
      rw [packets_error_cons] at hlocated
      cases before with
      | nil => simp [countLost] at h
      | cons first before =>
        simp only [countLost, List.cons_append, List.cons.injEq] at h
        obtain ⟨rfl, hrest⟩ := h
        have hp := ih hlocated hrest
        simpa [lastTotal, lastStop, totals] using hp
    | ok q =>
      simp only [packets_ok_cons, List.forall_mem_cons] at hlocated
      obtain ⟨hq, hothers⟩ := hlocated
      cases before with
      | nil =>
        simp only [countLost, List.nil_append, List.cons.injEq, Except.ok.injEq] at h
        obtain ⟨rfl, -⟩ := h
        rw [Packet.located_countLost, hq]
        rfl
      | cons first before =>
        simp only [countLost, List.cons_append, List.cons.injEq] at h
        obtain ⟨rfl, hrest⟩ := h
        rw [lastTotal_ok_cons, lastStop_ok_cons, Packet.eventsDiscarded_countLost,
          Packet.stop_countLost]
        exact ih hothers hrest

/-- **What an index counts for a packet.** -/
theorem eq_countLost_of_ofFile {before after : PacketIndex}
    (h : ofFile metadata options file = before ++ .ok p :: after) :
    p = p.located.countLost (lastTotal before 0) (lastStop before none) := by
  refine eq_countLost_of_split (fun q hq => ?_) h
  obtain ⟨_, _, hlocate⟩ := exists_locate_of_mem hq
  exact (Packet.exists_head_of_locate hlocate).1

end PacketIndex

end CommonTrace
