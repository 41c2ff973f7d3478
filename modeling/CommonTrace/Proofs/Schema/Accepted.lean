import CommonTrace.Proofs.Schema.Block
import CommonTrace.Proofs.Schema.Passed
import CommonTrace.Schema.OfTree

/-!
# Accepted metadata

What holds of all metadata that a tree describes (`Metadata.accepted_of_ofTree`): the layouts are
layouts, whose integers tell the time by clocks of the metadata, the paths have passed the check, and there
is a stream just if the tree declares a stream or an event.
-/

namespace CommonTrace

open Tsdl

/-- The names of the clocks. -/
def Metadata.clockNames (metadata : Metadata) : Set String :=
  {name | metadata.clocks.contains name = true}

/-- **What accepted metadata promises.** -/
structure Metadata.Accepted (metadata : Metadata) : Prop where
  packetHeader : BlockLaidOut metadata.clockNames metadata.packetHeader
  streams : ∀ entry ∈ metadata.streams.entries, entry.2.LaidOut metadata.clockNames
  paths : metadata.checkPaths = .ok ()

/-! ## Binding events -/

/-- All streams of a dictionary are laid out. -/
def StreamsLaidOut (clocks : Set String) (streams : Dictionary ℕ StreamSchema) : Prop :=
  ∀ entry ∈ streams.entries, entry.2.LaidOut clocks

section Binding

variable {clocks : Set String} {alone : Bool} {streams streams' : Dictionary ℕ StreamSchema}
  {stream stream' : StreamSchema} {event : EventSchema} {key : ℕ}

lemma StreamsLaidOut.insert (h : StreamsLaidOut clocks streams) (hstream : stream.LaidOut clocks) :
    StreamsLaidOut clocks (streams.insert key stream) := by
  intro entry hentry
  rcases Dictionary.mem_insert hentry with rfl | hentry
  · exact hstream
  · exact h entry hentry

lemma exists_of_addStream (h : addStream alone streams stream = .ok streams') :
    ∃ key, streams' = streams.insert key stream := by
  obtain ⟨key, -, h⟩ := exists_of_bind_eq_ok h
  dsimp only at h
  split at h
  · cases h
  · cases h
    exact ⟨key, rfl⟩

lemma StreamSchema.LaidOut.withEvents (h : stream.LaidOut clocks) {events : Dictionary ℕ EventSchema}
    {anonymousEvent : Option EventSchema}
    (hevents : ∀ entry ∈ events.entries, entry.2.LaidOut clocks)
    (hanonymous : ∀ event ∈ anonymousEvent, event.LaidOut clocks) :
    { stream with events, anonymousEvent }.LaidOut clocks where
  packetContext := h.packetContext
  eventHeader := h.eventHeader
  eventContext := h.eventContext
  events event hmem := by
    rcases List.mem_append.mp hmem with hmem | hmem
    · obtain ⟨entry, hentry, rfl⟩ := List.mem_map.mp hmem
      exact hevents entry hentry
    · exact hanonymous event (Option.mem_toList.mp hmem)

lemma StreamSchema.LaidOut.addEvent (h : stream.LaidOut clocks) (hevent : event.LaidOut clocks)
    (hok : stream.addEvent key event = .ok stream') : stream'.LaidOut clocks := by
  have hevents : ∀ entry ∈ stream.events.entries, entry.2.LaidOut clocks := fun entry hentry =>
    h.events entry.2 (List.mem_append_left _ (List.mem_map.mpr ⟨entry, hentry, rfl⟩))
  have hanonymous : ∀ event ∈ stream.anonymousEvent, event.LaidOut clocks := fun event hmem =>
    h.events event (List.mem_append_right _ (Option.mem_toList.mpr hmem))
  have hreturn (added : StreamSchema) (hadded : added.LaidOut clocks)
      (hok : (if added.anonymousEvent.isSome ∧ 1 < added.eventCount then
          invalid (.eventIdMissing event.name key) >>= fun _ : Unit => .ok added
        else .ok added) = Except.ok stream') : stream'.LaidOut clocks := by
    split at hok
    · cases hok
    · cases hok
      exact hadded
  unfold StreamSchema.addEvent at hok
  dsimp only at hok
  split at hok
  · split at hok
    · cases hok
    · refine hreturn _ (h.withEvents (fun entry hentry => ?_) hanonymous) hok
      rcases Dictionary.mem_insert hentry with rfl | hentry
      · exact hevent
      · exact hevents entry hentry
  · split at hok
    · cases hok
    · refine hreturn _ (h.withEvents hevents ?_) hok
      rintro _ ⟨⟩
      exact hevent

lemma exists_of_addEvent (h : addEvent alone streams event = .ok streams') :
    ∃ key key' stream stream', (key', stream) ∈ streams.entries ∧
      stream.addEvent key event = .ok stream' ∧ streams' = streams.insert key stream' := by
  obtain ⟨key, -, h⟩ := exists_of_bind_eq_ok h
  split at h
  · cases h
  · rename_i stream hget
    obtain ⟨stream', hadd, h⟩ := exists_of_bind_eq_ok h
    cases h
    obtain ⟨key', hmem⟩ := Dictionary.exists_of_get? hget
    exact ⟨key, key', stream, stream', hmem, hadd, rfl⟩

lemma presentStreams_laidOut {declared : List StreamSchema} {events : List EventSchema}
    (h : ∀ stream ∈ declared, stream.LaidOut clocks) :
    ∀ stream ∈ presentStreams declared events, stream.LaidOut clocks := by
  unfold presentStreams
  split
  · intro stream hstream
    cases List.mem_singleton.mp hstream
    exact StreamSchema.laidOut_empty
  · exact h

lemma presentStreams_ne_nil {declared : List StreamSchema} {events : List EventSchema}
    (h : declared ≠ [] ∨ events ≠ []) : presentStreams declared events ≠ [] := by
  unfold presentStreams
  split
  · exact List.cons_ne_nil _ _
  · rename_i hnone
    rcases h with h | h
    · exact h
    · intro hdeclared
      simp [hdeclared, h] at hnone

/-- Binding gives streams that are laid out, and at least one just if there is a stream or an event. -/
theorem laidOut_of_bindEvents {declared : List StreamSchema} {events : List EventSchema}
    (hdeclared : ∀ stream ∈ declared, stream.LaidOut clocks)
    (hevents : ∀ event ∈ events, event.LaidOut clocks)
    (h : bindEvents declared events = .ok streams) :
    StreamsLaidOut clocks streams ∧ (declared ≠ [] ∨ events ≠ [] ↔ streams.entries ≠ []) := by
  obtain ⟨bare, hbare, h⟩ := exists_of_bind_eq_ok h
  refine ⟨?_, ?_, ?_⟩
  · have hstart : StreamsLaidOut clocks bare := by
      refine of_foldlM_eq_ok (P := StreamsLaidOut clocks) (fun _ h => absurd h List.not_mem_nil) ?_ hbare
      intro before after stream hmem hbefore hadd
      obtain ⟨key, rfl⟩ := exists_of_addStream hadd
      exact hbefore.insert (presentStreams_laidOut hdeclared stream hmem)
    refine of_foldlM_eq_ok (P := StreamsLaidOut clocks) hstart ?_ h
    intro before after event hmem hbefore hadd
    obtain ⟨key, key', stream, stream', hstream, hadded, rfl⟩ := exists_of_addEvent hadd
    exact hbefore.insert ((hbefore _ hstream).addEvent (hevents event hmem) hadded)
  · intro hany
    have hstart : bare.entries ≠ [] := by
      cases hpresent : presentStreams declared events with
      | nil => exact absurd hpresent (presentStreams_ne_nil hany)
      | cons first rest =>
        rw [hpresent, List.foldlM_cons] at hbare
        obtain ⟨one, hone, hbare⟩ := exists_of_bind_eq_ok hbare
        obtain ⟨key, rfl⟩ := exists_of_addStream hone
        refine of_foldlM_eq_ok (P := fun streams => streams.entries ≠ [])
          (Dictionary.insert_ne_nil _ _ _) ?_ hbare
        intro before after stream _ _ hadd
        obtain ⟨key, rfl⟩ := exists_of_addStream hadd
        exact Dictionary.insert_ne_nil _ _ _
    refine of_foldlM_eq_ok (P := fun streams => streams.entries ≠ []) hstart ?_ h
    intro before after event _ _ hadd
    obtain ⟨key, _, _, stream', _, _, rfl⟩ := exists_of_addEvent hadd
    exact Dictionary.insert_ne_nil _ _ _
  · intro hstreams
    contrapose! hstreams
    obtain ⟨rfl, rfl⟩ := hstreams
    cases hbare
    cases h
    rfl

end Binding

/-! ## Trees -/

lemma checkClocks_eq_ok_iff {declared : Dictionary String Clock} {references : List String} :
    checkClocks declared references = .ok () ↔ ∀ name ∈ references, declared.contains name = true := by
  unfold checkClocks
  split
  · rename_i name hfind
    have hmissing := List.find?_some hfind
    refine ⟨nofun, fun h => ?_⟩
    rw [h name (List.mem_of_find?_eq_some hfind)] at hmissing
    cases hmissing
  · rename_i hfind
    refine ⟨fun _ name hname => ?_, fun _ => rfl⟩
    simpa using List.find?_eq_none.mp hfind name hname

/-- Whether a tree declares a stream or an event. -/
def Tsdl.Node.declaresEvents (root : Node) : Bool :=
  root.children.any fun node => node.kind = .stream || node.kind = .event

lemma Tsdl.Node.declaresEvents_iff {root : Node} {clocks : Set String} {blocks : Blocks}
    (h : blocks.Sound root.children clocks) :
    root.declaresEvents = true ↔ blocks.streams ≠ [] ∨ blocks.events ≠ [] := by
  rw [← List.length_pos_iff, ← List.length_pos_iff, h.streamCount, h.eventCount, List.countP_pos_iff,
    List.countP_pos_iff]
  simp only [declaresEvents, List.any_eq_true, Bool.or_eq_true, ← exists_or, ← and_or_left]

/-- **The metadata that a tree describes is as metadata should be**, and it has a stream just if the tree
declares a stream or an event. -/
theorem Metadata.accepted_of_ofTree {root : Node} {metadata : Metadata}
    (h : Metadata.ofTree root = .ok metadata) :
    metadata.Accepted ∧ (root.declaresEvents = true ↔ metadata.streams.entries ≠ []) := by
  unfold ofTree at h
  split at h
  · cases h
  obtain ⟨declared, -, h⟩ := exists_of_bind_eq_ok h
  obtain ⟨⟨⟨blocks, passedOver⟩, table⟩, hread, h⟩ := exists_of_bind_eq_ok h
  obtain ⟨_, hclocks, h⟩ := exists_of_bind_eq_ok h
  obtain ⟨streams, hbind, h⟩ := exists_of_bind_eq_ok h
  obtain ⟨_, hpaths, h⟩ := exists_of_bind_eq_ok h
  cases h
  have hbuild := TypeM.buildSpecifiers_ensures (root.weight + 1)
  obtain ⟨-, -, hsound⟩ :=
    BlockM.readAll_ensures (TypeM.resolveNamed_ensures hbuild) hbuild root _ _ _ _ subset_rfl (.empty _) hread
  have hknown : table.noted ⊆ {name | blocks.clocks.contains name = true} := fun name hname =>
    checkClocks_eq_ok_iff.mp hclocks name (Array.mem_toList_iff.mpr hname)
  have hsound := hsound.mono hknown
  obtain ⟨hstreams, hpresent⟩ := laidOut_of_bindEvents hsound.streams hsound.events hbind
  refine ⟨⟨?_, hstreams, hpaths⟩, (Node.declaresEvents_iff hsound).trans hpresent⟩
  change BlockLaidOut _ (blocks.trace.getD .empty).packetHeader
  cases htrace : blocks.trace with
  | none => exact blockLaidOut_none
  | some trace => exact hsound.trace trace htrace

/-! ## What is selected -/

namespace Metadata.Accepted

variable {metadata : Metadata} {stream : StreamSchema}

lemma streamPassed (h : metadata.Accepted) {key : ℕ}
    (hstream : (key, stream) ∈ metadata.streams.entries) : StreamPassed metadata stream :=
  passed_of_checkPaths h.paths hstream

/-- The packet header has been checked along with the blocks of some stream. -/
lemma headerPassed (h : metadata.Accepted) (hpresent : metadata.streams.entries ≠ []) :
    BlockPassed [] .tracePacketHeader metadata.packetHeader := by
  obtain ⟨entry, hentry⟩ := List.exists_mem_of_ne_nil _ hpresent
  exact (h.streamPassed hentry).packetHeader

end Metadata.Accepted

lemma Metadata.exists_of_stream? {metadata : Metadata} {stream : StreamSchema} {id : Option ℕ}
    (h : metadata.stream? id = some stream) : ∃ key, (key, stream) ∈ metadata.streams.entries := by
  cases id with
  | some id => exact Dictionary.exists_of_get? h
  | none =>
    rcases Option.or_eq_some_iff.mp h with h | ⟨-, h⟩
    · exact Dictionary.exists_of_only? h
    · exact Dictionary.exists_of_get? h

lemma StreamSchema.mem_of_event? {stream : StreamSchema} {event : EventSchema} {id : Option ℕ}
    (h : stream.event? id = some event) : event ∈ stream.eventList := by
  have hnumbered : (∃ key, (key, event) ∈ stream.events.entries) → event ∈ stream.eventList := by
    rintro ⟨key, hmem⟩
    exact List.mem_append_left _ (List.mem_map.mpr ⟨(key, event), hmem, rfl⟩)
  have hanonymous : stream.anonymousEvent = some event → event ∈ stream.eventList := by
    rintro h
    exact List.mem_append_right _ (Option.mem_toList.mpr h)
  cases id with
  | some id =>
    rcases Option.or_eq_some_iff.mp h with h | ⟨-, h⟩
    · exact hnumbered (Dictionary.exists_of_get? h)
    · exact hanonymous h
  | none =>
    rcases Option.or_eq_some_iff.mp h with h | ⟨-, h⟩
    · exact hanonymous h
    · exact hnumbered (Dictionary.exists_of_only? h)

end CommonTrace
