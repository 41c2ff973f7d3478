import CommonTrace.Proofs.Schema.Binding
import CommonTrace.Proofs.Schema.BlockValues

/-!
# What keeps events from being bound

Events are bound one after the other, and after each of them the stream is checked.  Why a stream refuses an
event is `StreamSchema.addEvent_eq_error`: it is another event, which stands in one of the `slots` of the
stream already.

What is wrong can be said without regard to the order.  A `BindingFault` is a property of one or two of the
streams or events, and not of the place where it is noticed; it depends on the ids and names that are declared
only (`BindingFault.congr`).
-/

namespace CommonTrace

open Tsdl

/-! ## One stream -/

namespace StreamSchema

variable {stream stream' : StreamSchema} {event : EventSchema} {key : ℕ}

/-- The events of a stream, each with the id under which it stands. -/
def slots (stream : StreamSchema) : List (Option ℕ × EventSchema) :=
  stream.events.entries.map (fun entry => (some entry.1, entry.2)) ++
    stream.anonymousEvent.toList.map (none, ·)

lemma length_slots (stream : StreamSchema) : stream.slots.length = stream.eventCount := by
  cases h : stream.anonymousEvent <;> simp [slots, eventCount, Dictionary.size, h]

lemma slots_withEvent (h : stream.Lacks event) :
    (stream.withEvent event).slots.Perm ((event.id, event) :: stream.slots) := by
  unfold Lacks at h
  unfold withEvent slots
  cases hid : event.id with
  | some id =>
    rw [hid] at h
    exact ((Dictionary.perm_insert h event).map _).append_right _
  | none =>
    rw [hid] at h
    simp [h]

/-- Beside an event without an id there is none with an id. -/
lemma Unmistakable.events_eq (h : stream.Unmistakable) (hanonymous : stream.anonymousEvent.isSome) :
    stream.events = .empty := by
  have hnone : stream.events.entries = [] := by
    by_contra hsome
    have hpos := List.length_pos_iff.mpr hsome
    refine h ⟨hanonymous, ?_⟩
    rw [eventCount, Dictionary.size, if_pos hanonymous]
    omega
  exact congrArg Dictionary.mk hnone

/-- An event without an id is the only event of its stream. -/
lemma Unmistakable.slots_eq (h : stream.Unmistakable) (hslot : (none, event) ∈ stream.slots) :
    stream.slots = [(none, event)] := by
  rcases List.mem_append.mp hslot with hslot | hslot
  · obtain ⟨_, -, hid⟩ := List.mem_map.mp hslot
    cases hid
  · obtain ⟨other, hother, hsame⟩ := List.mem_map.mp hslot
    cases hsame
    rw [Option.mem_toList] at hother
    rw [slots, h.events_eq (by rw [hother]; rfl), hother]
    rfl

lemma mem_slots_of_get? {id : ℕ} {other : EventSchema} (h : stream.events.get? id = some other) :
    (some id, other) ∈ stream.slots :=
  List.mem_append_left _ (List.mem_map.mpr ⟨(id, other), Dictionary.mem_of_get? h, rfl⟩)

lemma mem_slots_of_anonymousEvent {other : EventSchema} (h : stream.anonymousEvent = some other) :
    (none, other) ∈ stream.slots := by
  refine List.mem_append_right _ (List.mem_map.mpr ⟨other, ?_, rfl⟩)
  rw [h]
  exact List.mem_singleton_self other

/-- **Why an event cannot be added to a stream**: another one has its id, or has no id either, or one of the
two has no id. -/
lemma addEvent_eq_error {e : SchemaError} (h : stream.addEvent key event = .error e) :
    (∃ id other, event.id = some id ∧ (some id, other) ∈ stream.slots ∧
        e = .repeated (.eventId id key)) ∨
      (∃ other, event.id = none ∧ (none, other) ∈ stream.slots ∧ e = .repeated (.anonymousEvent key)) ∨
      ∃ slot ∈ stream.slots, (slot.1 = none ∨ event.id = none) ∧
        e = .invalid (.eventIdMissing event.name key) := by
  have hend {added : StreamSchema}
      (h : (if added.anonymousEvent.isSome ∧ 1 < added.eventCount then
          invalid (.eventIdMissing event.name key) >>= fun _ : Unit => .ok added
        else .ok added) = Except.error e) :
      (added.anonymousEvent.isSome ∧ 1 < added.eventCount) ∧
        e = .invalid (.eventIdMissing event.name key) := by
    split at h
    · rename_i hmistaken
      cases h
      exact ⟨hmistaken, rfl⟩
    · cases h
  unfold addEvent at h
  cases hid : event.id with
  | some id =>
    rw [hid] at h
    dsimp only at h
    cases hget : stream.events.get? id with
    | some other =>
      rw [Dictionary.contains, hget] at h
      cases h
      exact .inl ⟨id, other, rfl, mem_slots_of_get? hget, rfl⟩
    | none =>
      rw [Dictionary.contains, hget] at h
      obtain ⟨⟨hanonymous, -⟩, rfl⟩ := hend h
      obtain ⟨other, hother⟩ := Option.isSome_iff_exists.mp hanonymous
      exact .inr (.inr ⟨_, mem_slots_of_anonymousEvent hother, .inl rfl, rfl⟩)
  | none =>
    rw [hid] at h
    dsimp only at h
    cases hanonymous : stream.anonymousEvent with
    | some other =>
      rw [hanonymous] at h
      cases h
      exact .inr (.inl ⟨other, rfl, mem_slots_of_anonymousEvent hanonymous, rfl⟩)
    | none =>
      rw [hanonymous] at h
      obtain ⟨⟨-, hcount⟩, rfl⟩ := hend h
      have hslots : stream.slots ≠ [] := by
        intro hnone
        have hempty : stream.events.size = 0 := by
          simpa [hnone, eventCount, hanonymous] using stream.length_slots.symm
        have hmore : 1 < stream.events.size + 1 := hcount
        omega
      obtain ⟨slot, hslot⟩ := List.exists_mem_of_ne_nil _ hslots
      exact .inr (.inr ⟨slot, hslot, .inr rfl, rfl⟩)

end StreamSchema

/-! ## Faults -/

/-- The key of the only stream, or of the one that there must be if none is declared. -/
def soleKey? : List StreamSchema → Option ℕ
  | [] => some 0
  | [stream] => some (stream.id.getD 0)
  | _ => none

/-- The key is that of a stream. -/
def IsStreamKey (streams : List StreamSchema) (key : ℕ) : Prop :=
  (∃ stream ∈ streams, stream.id = some key) ∨ soleKey? streams = some key

/-- The key of the stream that an event belongs to: the one that it names, or that of the only stream. -/
def EventSchema.key? (streams : List StreamSchema) (event : EventSchema) : Option ℕ :=
  event.streamId.or (soleKey? streams)

/-- **What keeps events from being bound**, with the error that reports it. -/
inductive BindingFault (streams : List StreamSchema) (events : List EventSchema) : SchemaError → Prop
  /-- Two streams have the same id. -/
  | repeatedStream {stream other : StreamSchema} {others : List StreamSchema} {key : ℕ}
      (h : streams.Perm (stream :: other :: others))
      (hid : stream.id = some key) (hother : other.id = some key) :
      BindingFault streams events (.repeated (.stream key))
  /-- A stream beside another has no id. -/
  | streamIdMissing {stream : StreamSchema} (hmem : stream ∈ streams) (hid : stream.id = none)
      (hseveral : 1 < streams.length) : BindingFault streams events (.invalid .streamIdMissing)
  /-- An event does not say which of several streams it belongs to. -/
  | eventStreamMissing {event : EventSchema} (hmem : event ∈ events) (hstream : event.streamId = none)
      (hseveral : 1 < streams.length) :
      BindingFault streams events (.invalid (.eventStreamMissing event.name))
  /-- An event names a stream that there is not. -/
  | eventStreamUnknown {event : EventSchema} {key : ℕ} (hmem : event ∈ events)
      (hstream : event.streamId = some key) (hunknown : ¬ IsStreamKey streams key) :
      BindingFault streams events (.invalid (.eventStreamUnknown event.name key))
  /-- Two events of a stream have the same id. -/
  | repeatedEvent {event other : EventSchema} {others : List EventSchema} {key id : ℕ}
      (h : events.Perm (event :: other :: others))
      (hkey : event.key? streams = some key) (hsame : other.key? streams = some key)
      (hid : event.id = some id) (hother : other.id = some id) :
      BindingFault streams events (.repeated (.eventId id key))
  /-- Two events of a stream have no id. -/
  | repeatedAnonymous {event other : EventSchema} {others : List EventSchema} {key : ℕ}
      (h : events.Perm (event :: other :: others))
      (hkey : event.key? streams = some key) (hsame : other.key? streams = some key)
      (hid : event.id = none) (hother : other.id = none) :
      BindingFault streams events (.repeated (.anonymousEvent key))
  /-- Of two events of a stream, one has no id. -/
  | eventIdMissing {event other : EventSchema} {others : List EventSchema} {key : ℕ}
      (h : events.Perm (event :: other :: others))
      (hkey : event.key? streams = some key) (hsame : other.key? streams = some key)
      (hid : event.id = none ∨ other.id = none) :
      BindingFault streams events (.invalid (.eventIdMissing event.name key))

/-! ## What a fault depends on -/

/-- What of an event has a say in its binding. -/
def EventSchema.values (event : EventSchema) : String × Option ℕ × Option ℕ :=
  (event.name, event.streamId, event.id)

lemma EventSchema.values_eq_iff {event event' : EventSchema} :
    event.values = event'.values ↔
      event.name = event'.name ∧ event.streamId = event'.streamId ∧ event.id = event'.id := by
  simp [values]

/-- An item that stands for the first of some values can be moved to the front. -/
lemma exists_perm_of_map_perm {α β : Type} {f : α → β} {items : List α} {b : β} {others : List β}
    (h : (items.map f).Perm (b :: others)) :
    ∃ a rest, items.Perm (a :: rest) ∧ f a = b ∧ (rest.map f).Perm others := by
  obtain ⟨a, hmem, rfl⟩ := List.mem_map.mp (h.mem_iff.mpr List.mem_cons_self)
  obtain ⟨before, after, rfl⟩ := List.append_of_mem hmem
  have hfront : (before ++ a :: after).Perm (a :: (before ++ after)) := List.perm_middle
  exact ⟨a, before ++ after, hfront, rfl, ((hfront.map f).symm.trans h).cons_inv⟩

section Values

variable {streams streams' : List StreamSchema} {events events' : List EventSchema}

lemma soleKey?_eq_none_iff : soleKey? streams = none ↔ 1 < streams.length := by
  match streams with
  | [] => simp [soleKey?]
  | [_] => simp [soleKey?]
  | _ :: _ :: _ => simp [soleKey?]

lemma soleKey?_eq_some_iff (h : streams ≠ []) {key : ℕ} :
    soleKey? streams = some key ↔ ∃ stream, streams = [stream] ∧ stream.id.getD 0 = key := by
  match streams with
  | [] => exact absurd rfl h
  | [_] => simp [soleKey?]
  | _ :: _ :: _ => simp [soleKey?]

lemma soleKey?_congr (h : (streams.map StreamSchema.id).Perm (streams'.map StreamSchema.id)) :
    soleKey? streams = soleKey? streams' := by
  have hlength : streams.length = streams'.length := by simpa using h.length_eq
  match streams, streams' with
  | [], [] => rfl
  | [stream], [stream'] =>
    have hid : stream.id = stream'.id := by simpa using h
    rw [soleKey?, soleKey?, hid]
  | _ :: _ :: _, _ :: _ :: _ => rfl
  | [], _ :: _ | _ :: _, [] | [_], _ :: _ :: _ | _ :: _ :: _, [_] => simp at hlength

/-- Two items among some stand for two items among others with the same values. -/
private lemma exists_pair {α β : Type} {f : α → β} {items items' others : List α} {a b : α}
    (h : items.Perm (a :: b :: others)) (hsame : (items.map f).Perm (items'.map f)) :
    ∃ a' b' others', items'.Perm (a' :: b' :: others') ∧ f a' = f a ∧ f b' = f b := by
  obtain ⟨a', rest, hfirst, ha, hrest⟩ := exists_perm_of_map_perm (hsame.symm.trans (h.map f))
  obtain ⟨b', others', hsecond, hb, -⟩ := exists_perm_of_map_perm hrest
  exact ⟨a', b', others', hfirst.trans (hsecond.cons _), ha, hb⟩

/-- **Whether there is a fault depends on the ids and names that are declared**, and not on their order. -/
theorem BindingFault.congr {e : SchemaError} (h : BindingFault streams events e)
    (hstreams : (streams.map StreamSchema.id).Perm (streams'.map StreamSchema.id))
    (hevents : (events.map EventSchema.values).Perm (events'.map EventSchema.values)) :
    BindingFault streams' events' e := by
  have hcount : streams'.length = streams.length := by simpa using hstreams.symm.length_eq
  have hsole := soleKey?_congr hstreams
  have hstream {stream : StreamSchema} (hmem : stream ∈ streams) :
      ∃ stream' ∈ streams', stream'.id = stream.id :=
    List.mem_map.mp (hstreams.mem_iff.mp (List.mem_map_of_mem hmem))
  have hevent {event : EventSchema} (hmem : event ∈ events) :
      ∃ event' ∈ events', event'.values = event.values :=
    List.mem_map.mp (hevents.mem_iff.mp (List.mem_map_of_mem hmem))
  have hkeyOf {event event' : EventSchema} {key : ℕ} (heq : event'.streamId = event.streamId)
      (hkey : event.key? streams = some key) : event'.key? streams' = some key := by
    rwa [EventSchema.key?, heq, ← hsole]
  have hpair {event other : EventSchema} {others : List EventSchema} {key : ℕ}
      (h : events.Perm (event :: other :: others)) (hkey : event.key? streams = some key)
      (hother : other.key? streams = some key) :
      ∃ event' other' others', events'.Perm (event' :: other' :: others') ∧
        event'.key? streams' = some key ∧ other'.key? streams' = some key ∧
        event'.name = event.name ∧ event'.id = event.id ∧ other'.id = other.id := by
    obtain ⟨event', other', others', h', hfirst, hsecond⟩ := exists_pair h hevents
    obtain ⟨hname, hstreamId, hid⟩ := EventSchema.values_eq_iff.mp hfirst
    obtain ⟨-, hstreamId', hid'⟩ := EventSchema.values_eq_iff.mp hsecond
    exact ⟨event', other', others', h', hkeyOf hstreamId hkey, hkeyOf hstreamId' hother, hname, hid, hid'⟩
  cases h with
  | repeatedStream h hid hother =>
    obtain ⟨_, _, _, h, hfirst, hsecond⟩ := exists_pair h hstreams
    exact .repeatedStream h (hfirst.trans hid) (hsecond.trans hother)
  | streamIdMissing hmem hid hseveral =>
    obtain ⟨_, hmem, hsame⟩ := hstream hmem
    exact .streamIdMissing hmem (hsame.trans hid) (hcount ▸ hseveral)
  | eventStreamMissing hmem hnone hseveral =>
    obtain ⟨_, hmem, hvalues⟩ := hevent hmem
    obtain ⟨hname, hstreamId, -⟩ := EventSchema.values_eq_iff.mp hvalues
    exact hname ▸ .eventStreamMissing hmem (hstreamId.trans hnone) (hcount ▸ hseveral)
  | eventStreamUnknown hmem hsome hunknown =>
    obtain ⟨_, hmem, hvalues⟩ := hevent hmem
    obtain ⟨hname, hstreamId, -⟩ := EventSchema.values_eq_iff.mp hvalues
    refine hname ▸ .eventStreamUnknown hmem (hstreamId.trans hsome) fun hknown => hunknown ?_
    rwa [IsStreamKey, ← List.mem_map, ← hstreams.mem_iff, List.mem_map, ← hsole] at hknown
  | repeatedEvent h hkey hother hid hotherId =>
    obtain ⟨_, _, _, h', hkey', hother', -, hsame, hsame'⟩ := hpair h hkey hother
    exact .repeatedEvent h' hkey' hother' (hsame.trans hid) (hsame'.trans hotherId)
  | repeatedAnonymous h hkey hother hid hotherId =>
    obtain ⟨_, _, _, h', hkey', hother', -, hsame, hsame'⟩ := hpair h hkey hother
    exact .repeatedAnonymous h' hkey' hother' (hsame.trans hid) (hsame'.trans hotherId)
  | eventIdMissing h hkey hother hid =>
    obtain ⟨_, _, _, h', hkey', hother', hname, hsame, hsame'⟩ := hpair h hkey hother
    exact hname ▸ .eventIdMissing h' hkey' hother' (hid.imp hsame.trans hsame'.trans)

/-- Where there are not two streams, no fault is in the streams. -/
lemma BindingFault.of_few {e : SchemaError} (h : BindingFault streams events e) (hfew : streams.length ≤ 1)
    (hsole : soleKey? streams = soleKey? streams')
    (hknown : ∀ key, IsStreamKey streams' key → IsStreamKey streams key) :
    BindingFault streams' events e := by
  have hkeyOf {event : EventSchema} {key : ℕ} (hkey : event.key? streams = some key) :
      event.key? streams' = some key := by
    rwa [EventSchema.key?, ← hsole]
  cases h with
  | repeatedStream h =>
    have hlength := h.length_eq
    rw [List.length_cons, List.length_cons] at hlength
    omega
  | streamIdMissing _ _ hseveral | eventStreamMissing _ _ hseveral =>
    exact absurd hseveral (Nat.not_lt.mpr hfew)
  | eventStreamUnknown hmem hsome hunknown =>
    exact .eventStreamUnknown hmem hsome fun h => hunknown (hknown _ h)
  | repeatedEvent h hkey hother hid hotherId =>
    exact .repeatedEvent h (hkeyOf hkey) (hkeyOf hother) hid hotherId
  | repeatedAnonymous h hkey hother hid hotherId =>
    exact .repeatedAnonymous h (hkeyOf hkey) (hkeyOf hother) hid hotherId
  | eventIdMissing h hkey hother hid => exact .eventIdMissing h (hkeyOf hkey) (hkeyOf hother) hid

/-- That there must be a stream for the events gives rise to no fault and removes none. -/
lemma bindingFault_implicit_iff {e : SchemaError} :
    BindingFault [.empty] events e ↔ BindingFault [] events e := by
  have hknown (key : ℕ) : IsStreamKey [.empty] key ↔ IsStreamKey [] key := by
    simp [IsStreamKey, soleKey?, StreamSchema.empty]
  exact ⟨fun h => h.of_few (Nat.le_refl 1) rfl fun key => (hknown key).mpr,
    fun h => h.of_few (Nat.zero_le 1) rfl fun key => (hknown key).mp⟩

end Values

end CommonTrace
