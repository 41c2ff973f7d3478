import CommonTrace.Proofs.Schema.BindingFault
import CommonTrace.Proofs.Schema.BlockValues
import CommonTrace.Proofs.Schema.Trees

/-!
# Every event is bound once, or there is a fault

First the streams are put under their keys (`Keyed`).  While events are bound, those that have been bound
already stand in the streams they belong to, each of them once and under its id (`Bound`).  One more event
keeps it so (`Bound.addEvent`), or there is a fault (`Bound.fault`).  And where all events stand in their
streams, there is no fault (`Bound.not_fault`), so that in whatever order the blocks come, binding fails just
if there is one (`Metadata.bound_or_fault`).
-/

namespace CommonTrace

open Tsdl

/-! ## Two of several -/

/-- An item and one before it can be moved to the front. -/
lemma perm_of_mem_before {α : Type} {other : α} {done : List α} (item : α) (rest : List α) (h : other ∈ done) :
    ∃ others, (done ++ item :: rest).Perm (item :: other :: others) := by
  obtain ⟨before, after, rfl⟩ := List.append_of_mem h
  refine ⟨before ++ after ++ rest, List.perm_middle.trans (.cons _ ?_)⟩
  rw [List.append_assoc, List.append_assoc]
  exact List.perm_middle

/-! ## Streams by key -/

section Streams

variable {alone : Bool} {streams streams' : Dictionary ℕ StreamSchema} {stream : StreamSchema}
  {declared done : List StreamSchema} {events : List EventSchema} {e : SchemaError} {key : ℕ}

lemma StreamSchema.key_eq_ok (h : stream.key alone = .ok key) :
    stream.id.getD 0 = key ∧ (stream.id = none → alone = true) := by
  unfold StreamSchema.key at h
  split at h
  · rename_i id hid
    cases h
    rw [hid]
    exact ⟨rfl, nofun⟩
  · rename_i hid
    split at h
    · cases h
      rw [hid]
      exact ⟨rfl, fun _ => ‹_›⟩
    · cases h

lemma StreamSchema.key_eq_error (h : stream.key alone = .error e) :
    stream.id = none ∧ alone = false ∧ e = .invalid .streamIdMissing := by
  unfold StreamSchema.key at h
  split at h
  · cases h
  · rename_i hid
    split at h
    · cases h
    · rename_i halone
      cases h
      exact ⟨hid, Bool.eq_false_iff.mpr halone, rfl⟩

/-- Streams that stand under their keys: a stream without an id has the key 0. -/
structure Keyed (alone : Bool) (done : List StreamSchema) (streams : Dictionary ℕ StreamSchema) : Prop where
  sorted : streams.Sorted
  entries : streams.entries.Perm (done.map fun stream => (stream.id.getD 0, stream))
  alone : ∀ stream ∈ done, stream.id = none → alone = true

lemma Keyed.empty : Keyed alone [] .empty :=
  ⟨.empty, .refl _, by simp⟩

lemma Keyed.keys_perm (h : Keyed alone done streams) :
    streams.keys.Perm (done.map fun stream => stream.id.getD 0) := by
  have hkeys := h.entries.map Prod.fst
  rwa [List.map_map] at hkeys

lemma Keyed.addStream (h : Keyed alone done streams) (hok : addStream alone streams stream = .ok streams') :
    Keyed alone (done ++ [stream]) streams' := by
  obtain ⟨key, hkey, hok⟩ := exists_of_bind_eq_ok hok
  obtain ⟨hgetD, halone⟩ := StreamSchema.key_eq_ok hkey
  dsimp only at hok
  split at hok
  · cases hok
  · rename_i hfresh
    cases hok
    have hnone : streams.get? key = none := by simpa [Dictionary.contains] using hfresh
    refine ⟨h.sorted.insert key stream, (Dictionary.perm_insert hnone stream).trans ?_, ?_⟩
    · rw [List.map_append, List.map_singleton, hgetD]
      exact (h.entries.cons _).trans (List.perm_append_singleton _ _).symm
    · intro other hother hnoId
      rcases List.mem_append.mp hother with hother | hother
      · exact h.alone other hother hnoId
      · obtain rfl := List.mem_singleton.mp hother
        exact halone hnoId

lemma presentStreams_cases (declared : List StreamSchema) (events : List EventSchema) :
    presentStreams declared events = declared ∨
      declared = [] ∧ events ≠ [] ∧ presentStreams declared events = [.empty] := by
  unfold presentStreams
  split
  · rename_i h
    simp only [Bool.and_eq_true, List.isEmpty_iff, Bool.not_eq_true', List.isEmpty_eq_false_iff] at h
    exact .inr ⟨h.1, h.2, rfl⟩
  · exact .inl rfl

/-- If a stream cannot be put under a key, there is a fault. -/
lemma Keyed.fault {present rest : List StreamSchema} (h : Keyed (present.length = 1) done streams)
    (hsplit : present = done ++ stream :: rest)
    (herror : CommonTrace.addStream (present.length = 1) streams stream = .error e) :
    BindingFault present events e := by
  obtain hkey | ⟨key, hkey, herror⟩ := error_of_bind_eq_error herror
  · obtain ⟨hid, halone, rfl⟩ := StreamSchema.key_eq_error hkey
    have hmem : stream ∈ present := by
      rw [hsplit]
      simp
    have hpos := List.length_pos_of_mem hmem
    have hne : present.length ≠ 1 := of_decide_eq_false halone
    exact .streamIdMissing hmem hid (by omega)
  · dsimp only at herror
    split at herror
    · rename_i hcontains
      cases herror
      obtain ⟨other, hother, hotherKey⟩ :=
        List.mem_map.mp (h.keys_perm.mem_iff.mp (Dictionary.mem_keys_iff.mpr hcontains))
      have hseveral : present.length ≠ 1 := by
        have hpos := List.length_pos_of_mem hother
        rw [hsplit, List.length_append, List.length_cons]
        omega
      -- among several streams, a key is an id
      have hid {stream : StreamSchema} (hnone : stream.id = none → decide (present.length = 1) = true)
          (hkey : stream.id.getD 0 = key) : stream.id = some key := by
        cases h : stream.id with
        | none => exact absurd (of_decide_eq_true (hnone h)) hseveral
        | some id => rw [← hkey, h]; rfl
      obtain ⟨others, hperm⟩ := perm_of_mem_before stream rest hother
      obtain ⟨hgetD, halone⟩ := StreamSchema.key_eq_ok hkey
      exact .repeatedStream (hsplit ▸ hperm) (hid halone hgetD) (hid (h.alone other hother) hotherKey)
    · cases herror

/-- The streams stand under their keys, or there is a fault in them. -/
lemma keyed_or_fault (present : List StreamSchema) (events : List EventSchema) :
    (∀ streams, present.foldlM (addStream (present.length = 1)) .empty = .ok streams →
      Keyed (present.length = 1) present streams) ∧
      ∀ e, present.foldlM (addStream (present.length = 1)) .empty = .error e →
        BindingFault present events e := by
  obtain ⟨hok, herror⟩ := foldlM_cases (addStream (present.length = 1)) present
    (P := Keyed (present.length = 1)) .empty fun _ _ _ _ _ h hround => h.addStream hround
  refine ⟨hok, fun e h => ?_⟩
  obtain ⟨done, stream, rest, before, hsplit, hkeyed, hround⟩ := herror e h
  exact hkeyed.fault hsplit hround

end Streams

/-! ## Events by place -/

/-- The stream without its events. -/
def StreamSchema.bare (stream : StreamSchema) : StreamSchema :=
  { stream with events := .empty, anonymousEvent := none }

/-- The events of all streams, each with the key of its stream and with the id under which it stands there. -/
def boundEvents (streams : Dictionary ℕ StreamSchema) : List (Option ℕ × Option ℕ × EventSchema) :=
  streams.entries.flatMap fun entry => entry.2.slots.map fun slot => (some entry.1, slot)

section Places

variable {stream : StreamSchema} {event : EventSchema} {streams : Dictionary ℕ StreamSchema}
  {bound : Option ℕ × Option ℕ × EventSchema}

lemma StreamSchema.bare_withEvent : (stream.withEvent event).bare = stream.bare := by
  unfold withEvent
  cases event.id <;> rfl

lemma StreamSchema.slots_eq_nil (h : stream.bare = stream) : stream.slots = [] := by
  rw [← h]
  rfl

lemma StreamSchema.sorted_withEvent (h : stream.events.Sorted) : (stream.withEvent event).events.Sorted := by
  unfold withEvent
  cases event.id with
  | some id => exact h.insert id event
  | none => exact h

lemma StreamSchema.nodup_slots (h : stream.events.Sorted) : (stream.slots.map Prod.fst).Nodup := by
  have hids : stream.slots.map Prod.fst =
      stream.events.keys.map some ++ stream.anonymousEvent.toList.map fun _ => none := by
    simp [slots, Dictionary.keys, Function.comp_def]
  rw [hids]
  refine List.nodup_append.mpr ⟨h.nodup_keys.map fun _ _ => Option.some.inj, ?_, ?_⟩
  · cases stream.anonymousEvent <;> simp
  · intro id hid id' hid'
    obtain ⟨_, -, rfl⟩ := List.mem_map.mp hid
    obtain ⟨_, -, rfl⟩ := List.mem_map.mp hid'
    exact Option.some_ne_none _

lemma mem_boundEvents : bound ∈ boundEvents streams ↔
    ∃ key stream, (key, stream) ∈ streams.entries ∧ bound.1 = some key ∧ bound.2 ∈ stream.slots := by
  obtain ⟨key?, slot⟩ := bound
  simp only [boundEvents, List.mem_flatMap, List.mem_map, Prod.exists, Prod.mk.injEq]
  grind

lemma length_boundEvents (streams : Dictionary ℕ StreamSchema) :
    (boundEvents streams).length = streams.total StreamSchema.eventCount := by
  simp [boundEvents, Dictionary.total, Dictionary.values, List.length_flatMap, Function.comp_def,
    StreamSchema.length_slots]

/-- No two events stand at the same place. -/
lemma nodup_boundEvents (hsorted : streams.Sorted) (h : ∀ entry ∈ streams.entries, entry.2.events.Sorted) :
    ((boundEvents streams).map fun bound => (bound.1, bound.2.1)).Nodup := by
  rw [boundEvents, List.map_flatMap, List.nodup_flatMap]
  refine ⟨fun entry hentry => ?_, ?_⟩
  · have hslots := (StreamSchema.nodup_slots (h entry hentry)).map (f := Prod.mk (some entry.1)) fun _ _ heq =>
      (Prod.mk.inj heq).2
    rw [List.map_map] at hslots ⊢
    exact hslots
  · refine (List.pairwise_map.mp hsorted.nodup_keys).imp fun hne place hplace hother => hne ?_
    obtain ⟨_, hbound, rfl⟩ := List.mem_map.mp hplace
    obtain ⟨_, -, rfl⟩ := List.mem_map.mp hbound
    obtain ⟨_, hbound', heq⟩ := List.mem_map.mp hother
    obtain ⟨_, -, rfl⟩ := List.mem_map.mp hbound'
    exact (Option.some.inj (Prod.mk.inj heq).1).symm

end Places

/-! ## Events in their streams -/

/-- **Some events are bound to some streams.**  Apart from the events, every stream is there as it was declared,
under its key; every event is there once, in the stream it belongs to and under its id; and an event without
an id is alone. -/
structure Bound (present : List StreamSchema) (events : List EventSchema)
    (streams : Dictionary ℕ StreamSchema) : Prop where
  sorted : streams.Sorted
  entries : (streams.entries.map fun entry => (entry.1, entry.2.bare)).Perm
    (present.map fun stream => (stream.id.getD 0, stream))
  alone : ∀ stream ∈ present, stream.id = none → present.length = 1
  ids : ∀ entry ∈ streams.entries, entry.2.events.Sorted
  unmistakable : ∀ entry ∈ streams.entries, entry.2.Unmistakable
  events : (boundEvents streams).Perm
    (events.map fun event => (event.key? present, event.id, event))

namespace Bound

variable {present : List StreamSchema} {done : List EventSchema} {streams streams' : Dictionary ℕ StreamSchema}
  {event : EventSchema} {key : ℕ} {e : SchemaError}

/-- To begin with, no event is bound. -/
lemma of_keyed (h : Keyed (present.length = 1) present streams)
    (hbare : ∀ stream ∈ present, stream.bare = stream) : Bound present [] streams := by
  have hentry (entry) (hentry : entry ∈ streams.entries) : entry.2.bare = entry.2 := by
    obtain ⟨stream, hstream, rfl⟩ := List.mem_map.mp (h.entries.mem_iff.mp hentry)
    exact hbare stream hstream
  refine ⟨h.sorted, ?_, fun stream hmem hnone => of_decide_eq_true (h.alone stream hmem hnone), ?_, ?_, ?_⟩
  · rw [List.map_congr_left (g := id) fun entry hmem => by rw [hentry entry hmem]; rfl, List.map_id]
    exact h.entries
  · intro entry hmem
    rw [← hentry entry hmem]
    exact .empty
  · intro entry hmem
    rw [← hentry entry hmem]
    rintro ⟨hanonymous, -⟩
    cases hanonymous
  · have hnone : boundEvents streams = [] := by
      refine List.flatMap_eq_nil_iff.mpr fun entry hmem => ?_
      rw [StreamSchema.slots_eq_nil (hentry entry hmem), List.map_nil]
    rw [hnone]
    exact .refl _

lemma keys_perm (h : Bound present done streams) :
    streams.keys.Perm (present.map fun stream => stream.id.getD 0) := by
  have hkeys := h.entries.map Prod.fst
  rwa [List.map_map, List.map_map] at hkeys

/-- The stream that is found for an event is the one that it belongs to. -/
lemma streamKey_eq (h : Bound present done streams) (hpresent : present ≠ []) (event : EventSchema) :
    event.streamKey (present.length = 1) streams =
      match event.key? present with
      | some key => .ok key
      | none => invalid (.eventStreamMissing event.name) := by
  unfold EventSchema.streamKey EventSchema.key?
  cases event.streamId with
  | some id => rfl
  | none =>
    dsimp only
    rw [Option.none_or]
    cases hsole : soleKey? present with
    | some key =>
      obtain ⟨stream, rfl, rfl⟩ := (soleKey?_eq_some_iff hpresent).mp hsole
      rw [List.perm_singleton.mp h.keys_perm]
      rfl
    | none =>
      have hseveral : ¬ decide (present.length = 1) = true := by
        have := soleKey?_eq_none_iff.mp hsole
        simp only [decide_eq_true_eq]
        omega
      rw [if_neg hseveral]

lemma key?_of_streamKey (h : Bound present done streams) (hpresent : present ≠ [])
    (hkey : event.streamKey (present.length = 1) streams = .ok key) : event.key? present = some key := by
  rw [h.streamKey_eq hpresent] at hkey
  split at hkey
  · cases hkey
    assumption
  · cases hkey

/-- A key of a stream is one under which a stream stands. -/
lemma mem_keys_of_isStreamKey (h : Bound present done streams) (hpresent : present ≠ [])
    (hkey : IsStreamKey present key) : key ∈ streams.keys := by
  rw [h.keys_perm.mem_iff, List.mem_map]
  rcases hkey with ⟨stream, hmem, hid⟩ | hsole
  · exact ⟨stream, hmem, by rw [hid]; rfl⟩
  · obtain ⟨stream, rfl, rfl⟩ := (soleKey?_eq_some_iff hpresent).mp hsole
    exact ⟨stream, List.mem_singleton_self _, rfl⟩

lemma isStreamKey_of_mem_keys (h : Bound present done streams) (hkey : key ∈ streams.keys) :
    IsStreamKey present key := by
  obtain ⟨stream, hmem, hkey⟩ := List.mem_map.mp (h.keys_perm.mem_iff.mp hkey)
  cases hid : stream.id with
  | some id =>
    rw [hid] at hkey
    exact .inl ⟨stream, hmem, hid.trans (congrArg some hkey)⟩
  | none =>
    obtain ⟨other, rfl⟩ := List.length_eq_one_iff.mp (h.alone stream hmem hid)
    obtain rfl := List.mem_singleton.mp hmem
    exact .inr (congrArg some hkey)

/-- One more event is bound, in the stream it belongs to and under its id. -/
lemma addEvent (h : Bound present done streams) (hpresent : present ≠ [])
    (hok : addEvent (present.length = 1) streams event = .ok streams') :
    Bound present (done ++ [event]) streams' := by
  obtain ⟨key, stream, stream', hkey, hget, hadd, rfl⟩ := addEvent_eq_ok_iff.mp hok
  obtain ⟨hlacks, rfl, hunmistakable⟩ := StreamSchema.addEvent_eq_ok_iff.mp hadd
  obtain ⟨rest, hbefore, hafter⟩ := h.sorted.exists_perm hget
  have hplace := h.key?_of_streamKey hpresent hkey
  have hstream : (key, stream) ∈ streams.entries := Dictionary.mem_of_get? hget
  refine ⟨h.sorted.insert _ _, ?_, h.alone, fun entry hmem => ?_, fun entry hmem => ?_, ?_⟩
  · refine ((hafter _).map _).trans (.trans ?_ h.entries)
    rw [List.map_cons, StreamSchema.bare_withEvent]
    exact (hbefore.map fun entry => (entry.1, entry.2.bare)).symm
  · rcases Dictionary.mem_insert hmem with rfl | hmem
    · exact StreamSchema.sorted_withEvent (h.ids _ hstream)
    · exact h.ids entry hmem
  · rcases Dictionary.mem_insert hmem with rfl | hmem
    · exact hunmistakable
    · exact h.unmistakable entry hmem
  · have hslots := ((StreamSchema.slots_withEvent hlacks).map (Prod.mk (some key))).append_right
      (rest.flatMap fun entry => entry.2.slots.map (Prod.mk (some entry.1)))
    have hold : (boundEvents streams).Perm
        (stream.slots.map (Prod.mk (some key)) ++ rest.flatMap fun entry =>
          entry.2.slots.map (Prod.mk (some entry.1))) := hbefore.flatMap_right _
    rw [List.map_append, List.map_singleton, hplace]
    refine ((hafter _).flatMap_right _).trans (hslots.trans ?_)
    exact ((hold.symm.trans h.events).cons _).trans (List.perm_append_singleton _ _).symm

/-- **If an event cannot be bound, there is a fault.** -/
lemma fault {events rest : List EventSchema} (h : Bound present done streams) (hpresent : present ≠ [])
    (hsplit : events = done ++ event :: rest)
    (herror : CommonTrace.addEvent (present.length = 1) streams event = .error e) :
    BindingFault present events e := by
  have hmem : event ∈ events := by
    rw [hsplit]
    simp
  obtain hkey | ⟨key, hkey, herror⟩ := error_of_bind_eq_error herror
  · rw [h.streamKey_eq hpresent] at hkey
    split at hkey
    · cases hkey
    · rename_i hnone
      cases hkey
      obtain ⟨hstreamId, hsole⟩ := Option.or_eq_none_iff.mp hnone
      exact .eventStreamMissing hmem hstreamId (soleKey?_eq_none_iff.mp hsole)
  have hplace := h.key?_of_streamKey hpresent hkey
  split at herror
  · rename_i hget
    cases herror
    have hunknown : ¬ IsStreamKey present key := by
      intro hknown
      have hfound := Dictionary.mem_keys_iff.mp (h.mem_keys_of_isStreamKey hpresent hknown)
      rw [hget] at hfound
      cases hfound
    rcases Option.or_eq_some_iff.mp hplace with hstreamId | ⟨-, hsole⟩
    · exact .eventStreamUnknown hmem hstreamId hunknown
    · exact absurd (.inr hsole) hunknown
  · rename_i stream hget
    -- whatever stands in the stream has been bound before
    have hother (id : Option ℕ) (other : EventSchema) (hslot : (id, other) ∈ stream.slots) :
        other.key? present = some key ∧ other.id = id ∧ ∃ others, events.Perm (event :: other :: others) := by
      have hbound : (some key, id, other) ∈ boundEvents streams :=
        mem_boundEvents.mpr ⟨key, stream, Dictionary.mem_of_get? hget, rfl, hslot⟩
      obtain ⟨_, hdone, heq⟩ := List.mem_map.mp (h.events.mem_iff.mp hbound)
      obtain ⟨hkey, heq⟩ := Prod.mk.inj heq
      obtain ⟨hid, rfl⟩ := Prod.mk.inj heq
      exact ⟨hkey, hid, hsplit ▸ perm_of_mem_before event rest hdone⟩
    obtain hrefused | ⟨_, _, hreturned⟩ := error_of_bind_eq_error herror
    · obtain ⟨id, other, hid, hslot, rfl⟩ | ⟨other, hid, hslot, rfl⟩ | ⟨⟨id, other⟩, hslot, hmissing, rfl⟩ :=
        StreamSchema.addEvent_eq_error hrefused
      · obtain ⟨hsame, hotherId, _, hperm⟩ := hother _ _ hslot
        exact .repeatedEvent hperm hplace hsame hid hotherId
      · obtain ⟨hsame, hotherId, _, hperm⟩ := hother _ _ hslot
        exact .repeatedAnonymous hperm hplace hsame hid hotherId
      · obtain ⟨hsame, hotherId, _, hperm⟩ := hother _ _ hslot
        exact .eventIdMissing hperm hplace hsame (hmissing.symm.imp_right hotherId.trans)
    · cases hreturned

section Complete

variable {events others : List EventSchema} {other : EventSchema}

lemma mem_of_event (h : Bound present events streams) (hmem : event ∈ events) :
    (event.key? present, event.id, event) ∈ boundEvents streams :=
  h.events.mem_iff.mpr (List.mem_map_of_mem hmem)

/-- Two events of a stream do not have the same id. -/
lemma id_ne (h : Bound present events streams) (hperm : events.Perm (event :: other :: others))
    (hkey : event.key? present = some key) (hsame : other.key? present = some key) :
    event.id ≠ other.id := by
  intro hid
  have hplaces := (h.events.trans (hperm.map _)).map fun bound => (bound.1, bound.2.1)
  have hnodup := hplaces.nodup_iff.mp (nodup_boundEvents h.sorted h.ids)
  rw [List.map_cons, List.map_cons, List.map_cons, List.map_cons, hkey, hsame, hid] at hnodup
  exact (List.nodup_cons.mp hnodup).1 List.mem_cons_self

/-- An event of a stream in which another event has another id has an id. -/
lemma id_ne_none (h : Bound present events streams) (hevent : event ∈ events) (hother : other ∈ events)
    (hkey : event.key? present = some key) (hsame : other.key? present = some key)
    (hne : event.id ≠ other.id) : event.id ≠ none := by
  intro hid
  have hplace := h.mem_of_event hevent
  have hplace' := h.mem_of_event hother
  rw [hkey, hid] at hplace
  rw [hsame] at hplace'
  obtain ⟨_, stream, hentry, ⟨⟩, hslot⟩ := mem_boundEvents.mp hplace
  obtain ⟨_, stream', hentry', ⟨⟩, hslot'⟩ := mem_boundEvents.mp hplace'
  cases List.inj_on_of_nodup_map h.sorted.nodup_keys hentry hentry' rfl
  rw [(h.unmistakable _ hentry).slots_eq hslot] at hslot'
  obtain ⟨hnone, -⟩ := Prod.mk.inj (List.mem_singleton.mp hslot')
  exact hne (hid.trans hnone.symm)

/-- **If all events are bound, there is no fault.** -/
lemma not_fault (h : Bound present events streams) : ¬ BindingFault present events e := by
  intro hfault
  cases hfault with
  | repeatedStream hperm hid hother =>
    have hkeys := h.sorted.nodup_keys
    rw [(h.keys_perm.trans (hperm.map _)).nodup_iff, List.map_cons, List.map_cons, hid, hother] at hkeys
    exact (List.nodup_cons.mp hkeys).1 List.mem_cons_self
  | streamIdMissing hstream hid hseveral => exact Nat.ne_of_gt hseveral (h.alone _ hstream hid)
  | eventStreamMissing hevent hstreamId hseveral =>
    have hplace := h.mem_of_event hevent
    rw [EventSchema.key?, hstreamId, soleKey?_eq_none_iff.mpr hseveral] at hplace
    obtain ⟨_, _, -, ⟨⟩, -⟩ := mem_boundEvents.mp hplace
  | eventStreamUnknown hevent hstreamId hunknown =>
    have hplace := h.mem_of_event hevent
    rw [EventSchema.key?, hstreamId, Option.some_or] at hplace
    obtain ⟨_, _, hentry, ⟨⟩, -⟩ := mem_boundEvents.mp hplace
    exact hunknown (h.isStreamKey_of_mem_keys (List.mem_map_of_mem hentry))
  | repeatedEvent hperm hkey hsame hid hother => exact h.id_ne hperm hkey hsame (hid.trans hother.symm)
  | repeatedAnonymous hperm hkey hsame hid hother =>
    exact h.id_ne hperm hkey hsame (hid.trans hother.symm)
  | @eventIdMissing event other _ _ hperm hkey hsame hid =>
    have hevent : event ∈ events := hperm.mem_iff.mpr List.mem_cons_self
    have hother : other ∈ events := hperm.mem_iff.mpr (List.mem_cons_of_mem _ List.mem_cons_self)
    have hne := h.id_ne hperm hkey hsame
    exact hid.elim (h.id_ne_none hevent hother hkey hsame hne)
      (h.id_ne_none hother hevent hsame hkey hne.symm)

end Complete

end Bound

/-- **Either all events are bound, or there is a fault.** -/
lemma bindEvents_cases {declared : List StreamSchema} (hbare : ∀ stream ∈ declared, stream.bare = stream)
    (events : List EventSchema) :
    (∀ streams, bindEvents declared events = .ok streams →
      Bound (presentStreams declared events) events streams) ∧
      ∀ e, bindEvents declared events = .error e → BindingFault (presentStreams declared events) events e := by
  have hbare' : ∀ stream ∈ presentStreams declared events, stream.bare = stream := by
    rcases presentStreams_cases declared events with heq | ⟨-, -, heq⟩ <;> rw [heq]
    · exact hbare
    · exact fun stream hmem => List.mem_singleton.mp hmem ▸ rfl
  have hpresent (event : EventSchema) (hmem : event ∈ events) : presentStreams declared events ≠ [] :=
    presentStreams_ne_nil (.inr (List.ne_nil_of_mem hmem))
  unfold bindEvents
  dsimp only
  generalize presentStreams declared events = present at *
  obtain ⟨hkeyed, hfault⟩ := keyed_or_fault present events
  have hrounds (streams : Dictionary ℕ StreamSchema) (h : Keyed (present.length = 1) present streams) :=
    foldlM_cases (addEvent (present.length = 1)) events (P := Bound present)
      (.of_keyed h hbare') fun _ _ _ event hmem h hok => h.addEvent (hpresent event hmem) hok
  refine ⟨fun streams hok => ?_, fun e herror => ?_⟩
  · obtain ⟨start, hstart, hok⟩ := exists_of_bind_eq_ok hok
    exact (hrounds start (hkeyed start hstart)).1 streams hok
  · obtain herror | ⟨start, hstart, herror⟩ := error_of_bind_eq_error herror
    · exact hfault e herror
    · obtain ⟨done, event, rest, streams, hsplit, hbound, hround⟩ :=
        (hrounds start (hkeyed start hstart)).2 e herror
      exact hbound.fault (hpresent event (hsplit ▸ by simp)) hsplit hround

lemma key?_presentStreams {declared : List StreamSchema} {events : List EventSchema} (event : EventSchema) :
    event.key? (presentStreams declared events) = event.key? declared := by
  rcases presentStreams_cases declared events with heq | ⟨rfl, -, heq⟩ <;> rw [heq]
  rfl

/-- The stream that must exist because events do is no matter of a fault. -/
lemma bindingFault_presentStreams_iff {declared : List StreamSchema} {events : List EventSchema}
    {e : SchemaError} :
    BindingFault (presentStreams declared events) events e ↔ BindingFault declared events e := by
  rcases presentStreams_cases declared events with heq | ⟨rfl, -, heq⟩ <;> rw [heq]
  exact bindingFault_implicit_iff

/-! ## Trees -/

section Trees

open Node

/-- Where related lists are described item by item in the same way, the descriptions are equal. -/
private lemma map_eq_of_forall₂ {α β γ : Type} {R : α → β → Prop} {f : α → γ} {g : β → γ} {items : List α}
    {results : List β} (h : List.Forall₂ R items results) (hsame : ∀ a b, R a b → g b = f a) :
    results.map g = items.map f := by
  induction h with
  | nil => rfl
  | cons hfirst _ ih => rw [List.map_cons, List.map_cons, hsame _ _ hfirst, ih]

variable {nodes nodes' : List Node} {blocks blocks' : Blocks}

/-- What blocks declare of streams and events does not depend on the order of the blocks, up to the order. -/
lemma Blocks.Declared.perm (h : blocks.Declared nodes) (h' : blocks'.Declared nodes')
    (hperm : nodes.Perm nodes') :
    (blocks.streams.map StreamSchema.id).Perm (blocks'.streams.map StreamSchema.id) ∧
      (blocks.events.map EventSchema.values).Perm (blocks'.events.map EventSchema.values) := by
  have hid (block : Node) (stream : StreamSchema) (h : DeclareStream block.children stream) :
      stream.id = lastValue? Assignment.unsigned "id" block.children := h.id
  have hvalues (block : Node) (event : EventSchema)
      (h : DeclareEvent block.children event ∧ event.name ≠ "") :
      event.values = ((lastValue? Assignment.string "name" block.children).getD "",
        lastValue? Assignment.unsigned "stream_id" block.children,
        lastValue? Assignment.unsigned "id" block.children) := by
    rw [EventSchema.values, h.1.name, h.1.id, h.1.streamId]
  rw [map_eq_of_forall₂ h.streams hid, map_eq_of_forall₂ h'.streams hid,
    map_eq_of_forall₂ h.events hvalues, map_eq_of_forall₂ h'.events hvalues]
  exact ⟨(hperm.filter _).map _, (hperm.filter _).map _⟩

lemma Blocks.Declared.bare (h : blocks.Declared nodes) : ∀ stream ∈ blocks.streams, stream.bare = stream := by
  have hbare {block : Node} {stream : StreamSchema} (h : DeclareStream block.children stream) :
      stream.bare = stream := by
    rw [StreamSchema.bare, ← h.events, ← h.anonymousEvent]
  obtain ⟨hstreams, -⟩ := h
  generalize blocks.streams = streams, nodes.filter (·.kind = .stream) = streamNodes at hstreams ⊢
  induction hstreams with
  | nil => exact List.forall_mem_nil _
  | cons hfirst _ ih => exact List.forall_mem_cons.mpr ⟨hbare hfirst, ih⟩

/-- Every stream stands under its id, or it has none and is the only one; and an event without an id is alone in
its stream. -/
lemma Bound.entry_cases {present : List StreamSchema} {events : List EventSchema}
    {streams : Dictionary ℕ StreamSchema} (h : Bound present events streams) :
    ∀ entry ∈ streams.entries,
      (entry.2.id = some entry.1 ∨ entry.2.id = none ∧ entry.1 = 0 ∧ streams.size = 1) ∧
        (entry.2.anonymousEvent.isSome → entry.2.events = .empty) := by
  intro entry hentry
  refine ⟨?_, (h.unmistakable entry hentry).events_eq⟩
  obtain ⟨stream, hstream, heq⟩ := List.mem_map.mp (h.entries.mem_iff.mp (List.mem_map_of_mem hentry))
  obtain ⟨hkey, rfl⟩ := Prod.mk.inj heq
  have hsame : entry.2.bare.id = entry.2.id := rfl
  rw [hsame] at hkey
  cases hid : entry.2.id with
  | some id =>
    rw [hid] at hkey
    exact .inl (congrArg some hkey)
  | none =>
    rw [hid] at hkey
    have hsize : streams.entries.length = present.length := by
      simpa using h.entries.length_eq
    exact .inr ⟨rfl, hkey.symm, hsize.trans (h.alone _ hstream hid)⟩

/-- The streams of accepted metadata are those to which the events that have been read are bound. -/
lemma Metadata.exists_bound_of_ofTree {root : Node} {metadata : Metadata} (h : ofTree root = .ok metadata) :
    ∃ byteOrder blocks warnings, readBlocks root = .ok (byteOrder, blocks, warnings) ∧
      blocks.Declared root.children ∧
      Bound (presentStreams blocks.streams blocks.events) blocks.events metadata.streams := by
  rw [ofTree_eq_readBlocks_bind] at h
  obtain ⟨⟨byteOrder, blocks, warnings⟩, hread, h⟩ := exists_of_bind_eq_ok h
  obtain ⟨streams, hbind, h⟩ := exists_of_bind_eq_ok h
  obtain ⟨_, -, h⟩ := exists_of_bind_eq_ok h
  cases h
  have hdeclared := declared_of_readBlocks hread
  exact ⟨byteOrder, blocks, warnings, hread, hdeclared, (bindEvents_cases hdeclared.bare blocks.events).1 _ hbind⟩

/-- **A stream of accepted metadata is known by its id**, where 0 stands for a missing one. -/
lemma Metadata.entry_eq_of_id {root : Node} {metadata : Metadata} (h : ofTree root = .ok metadata)
    {entry entry' : ℕ × StreamSchema} (hentry : entry ∈ metadata.streams.entries)
    (hentry' : entry' ∈ metadata.streams.entries) (hid : entry.2.id.getD 0 = entry'.2.id.getD 0) :
    entry = entry' := by
  obtain ⟨_, _, _, -, -, hbound⟩ := exists_bound_of_ofTree h
  have hkey : ∀ entry ∈ metadata.streams.entries, entry.2.id.getD 0 = entry.1 := by
    intro entry hentry
    rcases (hbound.entry_cases entry hentry).1 with hid | ⟨hid, hzero, -⟩
    · rw [hid, Option.getD_some]
    · rw [hid, hzero, Option.getD_none]
  rw [hkey entry hentry, hkey entry' hentry'] at hid
  exact List.inj_on_of_nodup_map hbound.sorted.nodup_keys hentry hentry' hid

/-- **Every event is bound once, or there is a fault.**  In accepted metadata, each event block of the tree is one
event of one stream: the stream that it belongs to, where it stands under its id, or as the anonymous event if it
has none.  Every stream stands under its id, or under 0 if it has none, and then it is alone; and an anonymous
event is alone in its stream.

If all blocks can be read, binding fails with a fault that there is; and whether there is one does not depend on
the order in which the blocks are read. -/
theorem Metadata.bound_or_fault (root : Node) :
    (∀ metadata, ofTree root = .ok metadata → ∃ byteOrder blocks warnings,
      readBlocks root = .ok (byteOrder, blocks, warnings) ∧ blocks.Declared root.children ∧
      (boundEvents metadata.streams).Perm
        (blocks.events.map fun event => (event.key? blocks.streams, event.id, event)) ∧
      ((boundEvents metadata.streams).map fun bound => (bound.1, bound.2.1)).Nodup ∧
      metadata.streams.total StreamSchema.eventCount = (root.childrenOf .event).length ∧
      (metadata.streams.entries.map fun entry => (entry.1, entry.2.bare)).Perm
        ((presentStreams blocks.streams blocks.events).map fun stream => (stream.id.getD 0, stream)) ∧
      metadata.streams.keys.Nodup ∧
      ∀ entry ∈ metadata.streams.entries,
        (entry.2.id = some entry.1 ∨ entry.2.id = none ∧ entry.1 = 0 ∧ metadata.streams.size = 1) ∧
          (entry.2.anonymousEvent.isSome → entry.2.events = .empty)) ∧
    ∀ byteOrder blocks warnings, readBlocks root = .ok (byteOrder, blocks, warnings) →
      blocks.Declared root.children ∧
      (∀ e, bindEvents blocks.streams blocks.events = .error e →
        ofTree root = .error e ∧ BindingFault blocks.streams blocks.events e) ∧
      ∀ root', root'.children.Perm root.children → ∀ byteOrder' blocks' warnings',
        readBlocks root' = .ok (byteOrder', blocks', warnings') →
        ((∃ e, bindEvents blocks'.streams blocks'.events = .error e) ↔
          ∃ e, BindingFault blocks.streams blocks.events e) := by
  refine ⟨fun metadata hok => ?_, fun byteOrder blocks warnings hread => ?_⟩
  · obtain ⟨byteOrder, blocks, warnings, hread, hdeclared, hbound⟩ := exists_bound_of_ofTree hok
    have hevents : (boundEvents metadata.streams).Perm
        (blocks.events.map fun event => (event.key? blocks.streams, event.id, event)) := by
      simpa only [key?_presentStreams] using hbound.events
    refine ⟨byteOrder, blocks, warnings, hread, hdeclared, hevents, nodup_boundEvents hbound.sorted hbound.ids,
      ?_, hbound.entries, hbound.sorted.nodup_keys, hbound.entry_cases⟩
    rw [← length_boundEvents, hevents.length_eq, List.length_map]
    exact hdeclared.events.length_eq.symm
  · have hdeclared := declared_of_readBlocks hread
    refine ⟨hdeclared, fun e herror => ⟨?_, ?_⟩, fun root' hperm byteOrder' blocks' warnings' hread' => ?_⟩
    · rw [ofTree_eq_readBlocks_bind, hread]
      change bindEvents blocks.streams blocks.events >>= _ = _
      rw [herror]
      rfl
    · exact bindingFault_presentStreams_iff.mp ((bindEvents_cases hdeclared.bare blocks.events).2 e herror)
    · have hdeclared' := declared_of_readBlocks hread'
      obtain ⟨hstreams, hevents⟩ := hdeclared'.perm hdeclared hperm
      obtain ⟨hbound, hfault⟩ := bindEvents_cases hdeclared'.bare blocks'.events
      constructor
      · rintro ⟨e, herror⟩
        exact ⟨e, (bindingFault_presentStreams_iff.mp (hfault e herror)).congr hstreams hevents⟩
      · rintro ⟨e, h⟩
        cases hbind : bindEvents blocks'.streams blocks'.events with
        | error e' => exact ⟨e', rfl⟩
        | ok streams =>
          have hnone := (hbound streams hbind).not_fault (e := e)
          rw [bindingFault_presentStreams_iff] at hnone
          exact absurd (h.congr hstreams.symm hevents.symm) hnone

/-- An event with a name and some values, and with a byte in it. -/
def namedEvent (name : String) (values : List Node) : Node :=
  .block .event (.value "name" (.word .unaryString name) ::
    .type "fields" (.struct [.member (.integer "8") "byte" []]) :: values)

/-- Two events of the only stream, of which one names the stream. -/
def twoEvents : Node :=
  .block .root
    [.block .stream [.value "id" (.word .unaryDec "7")],
      namedEvent "a" [.value "id" (.word .unaryDec "0"), .value "stream_id" (.word .unaryDec "7")],
      namedEvent "b" [.value "id" (.word .unaryDec "1")]]

/-- An event with an id. -/
def numbered : Node :=
  namedEvent "a" [.value "id" (.word .unaryDec "0")]

/-- An event without an id. -/
def anonymous : Node :=
  namedEvent "b" []

theorem Metadata.bound_or_fault_twoEvents :
    (∃ metadata, ofTree twoEvents = .ok metadata ∧ metadata.streams.keys = [7] ∧
      metadata.streams.total StreamSchema.eventCount = 2) ∧
    ∃ byteOrder byteOrder' blocks blocks' warnings warnings' e e',
      readBlocks (.block .root [numbered, anonymous]) = .ok (byteOrder, blocks, warnings) ∧
      readBlocks (.block .root [anonymous, numbered]) = .ok (byteOrder', blocks', warnings') ∧
      ofTree (.block .root [numbered, anonymous]) = .error e ∧
      BindingFault blocks.streams blocks.events e ∧
      bindEvents blocks'.streams blocks'.events = .error e' := by
  constructor
  · have haccepted : (ofTree twoEvents).toOption.any (·.streams.keys = [7]) = true := by decide +kernel
    obtain ⟨metadata, hsome, hkeys⟩ := (Option.any_eq_true _ _).mp haccepted
    have hmetadata := eq_ok_of_toOption hsome
    obtain ⟨_, _, _, _, _, _, _, hcount, _⟩ := (Metadata.bound_or_fault twoEvents).1 metadata hmetadata
    exact ⟨metadata, hmetadata, of_decide_eq_true hkeys, hcount⟩
  · have hrefused : (readBlocks (.block .root [numbered, anonymous])).toOption.any (fun read =>
        !(bindEvents read.2.1.streams read.2.1.events).isOk) = true := by decide +kernel
    have hreordered : (readBlocks (.block .root [anonymous, numbered])).toOption.isSome = true := by
      decide +kernel
    obtain ⟨⟨byteOrder, blocks, warnings⟩, hsome, hbind⟩ := (Option.any_eq_true _ _).mp hrefused
    obtain ⟨⟨byteOrder', blocks', warnings'⟩, hsome'⟩ := Option.isSome_iff_exists.mp hreordered
    have hread := eq_ok_of_toOption hsome
    have hread' := eq_ok_of_toOption hsome'
    obtain ⟨-, hfault, horder⟩ := (Metadata.bound_or_fault (.block .root [numbered, anonymous])).2 _ _ _ hread
    cases herror : bindEvents blocks.streams blocks.events with
    | ok streams =>
      dsimp only at hbind
      rw [herror] at hbind
      cases hbind
    | error e =>
      obtain ⟨hrejected, hbad⟩ := hfault e herror
      have hperm : [anonymous, numbered].Perm [numbered, anonymous] := .swap _ _ _
      obtain ⟨e', herror'⟩ := (horder _ hperm _ _ _ hread').mpr ⟨e, hbad⟩
      exact ⟨_, _, _, _, _, _, e, e', hread, hread', hrejected, hbad, herror'⟩

end Trees

end CommonTrace
