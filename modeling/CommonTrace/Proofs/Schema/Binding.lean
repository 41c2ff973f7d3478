import CommonTrace.Proofs.Dictionary
import CommonTrace.Proofs.Schema.Accepted
import Mathlib.Data.List.Basic

/-!
# Binding events in any order

Events are bound to their streams one after the other, and each of them is checked against those that have
been bound before.  Still, the order does not matter (`bindEvents_perm`): what is refused is two events with
the same id, or one without an id among others, and either comes to light in any order.
-/

namespace CommonTrace

/-- Steps that may be exchanged where they succeed can be taken in any order.  `P` is kept by the steps. -/
lemma foldlM_perm {ε α β : Type} {f : β → α → Except ε β} {P : β → Prop}
    (hkept : ∀ b b' a, P b → f b a = .ok b' → P b')
    (hcomm : ∀ b b₁ b₂ a₁ a₂, P b → f b a₁ = .ok b₁ → f b₁ a₂ = .ok b₂ →
      ∃ b', f b a₂ = .ok b' ∧ f b' a₁ = .ok b₂)
    {items items' : List α} (h : items.Perm items') {b last : β} (hb : P b)
    (hok : items.foldlM f b = .ok last) : items'.foldlM f b = .ok last := by
  induction h generalizing b with
  | nil => exact hok
  | cons a _ ih =>
    rw [List.foldlM_cons] at hok ⊢
    obtain ⟨next, hfirst, hrest⟩ := exists_of_bind_eq_ok hok
    rw [hfirst]
    exact ih (hkept b next a hb hfirst) hrest
  | swap a₁ a₂ rest =>
    rw [List.foldlM_cons] at hok ⊢
    obtain ⟨next, hfirst, hrest⟩ := exists_of_bind_eq_ok hok
    rw [List.foldlM_cons] at hrest
    obtain ⟨last', hsecond, hrest⟩ := exists_of_bind_eq_ok hrest
    obtain ⟨other, hother, hsame⟩ := hcomm b next last' a₂ a₁ hb hfirst hsecond
    rw [hother]
    change (a₂ :: rest).foldlM f other = .ok last
    rw [List.foldlM_cons, hsame]
    exact hrest
  | trans _ _ ih ih' => exact ih' hb (ih hb hok)

/-! ## One stream -/

namespace StreamSchema

variable {stream stream' stream₁ stream₂ : StreamSchema} {event event₁ event₂ : EventSchema} {key : ℕ}

/-- The stream has no event with the id of another. -/
def Lacks (stream : StreamSchema) (event : EventSchema) : Prop :=
  match event.id with
  | some id => stream.events.get? id = none
  | none => stream.anonymousEvent = none

/-- The stream with one more event. -/
def withEvent (stream : StreamSchema) (event : EventSchema) : StreamSchema :=
  match event.id with
  | some id => { stream with events := stream.events.insert id event }
  | none => { stream with anonymousEvent := some event }

/-- An event without an id is the only one. -/
def Unmistakable (stream : StreamSchema) : Prop :=
  ¬ (stream.anonymousEvent.isSome ∧ 1 < stream.eventCount)

/-- When an event is added, and what the stream is then. -/
lemma addEvent_eq_ok_iff :
    stream.addEvent key event = .ok stream' ↔
      stream.Lacks event ∧ stream' = stream.withEvent event ∧ stream'.Unmistakable := by
  have hend (added : StreamSchema) :
      (if added.anonymousEvent.isSome ∧ 1 < added.eventCount then
          invalid (.eventIdMissing event.name key) >>= fun _ : Unit => .ok added
        else .ok added) = Except.ok stream' ↔ stream' = added ∧ stream'.Unmistakable := by
    split
    · rename_i h
      exact iff_of_false (fun hok => by cases hok) fun hrefused => hrefused.2 (hrefused.1 ▸ h)
    · rename_i h
      refine ⟨fun heq => ?_, fun heq => congrArg _ heq.1.symm⟩
      cases heq
      exact ⟨rfl, h⟩
  unfold addEvent Lacks withEvent
  cases event.id with
  | some id =>
    dsimp only
    cases hget : stream.events.get? id with
    | some old =>
      rw [Dictionary.contains, hget]
      exact iff_of_false (fun h => by cases h) fun h => by cases h.1
    | none =>
      rw [Dictionary.contains, hget]
      exact (hend _).trans ⟨fun h => ⟨rfl, h⟩, fun h => h.2⟩
  | none =>
    dsimp only
    cases hanonymous : stream.anonymousEvent with
    | some old => exact iff_of_false (fun h => by cases h) fun h => by cases h.1
    | none => exact (hend _).trans ⟨fun h => ⟨rfl, h⟩, fun h => h.2⟩

/-- An event that is added does not make up for a mistake. -/
lemma Unmistakable.of_withEvent (h : (stream.withEvent event).Unmistakable) : stream.Unmistakable := by
  rintro ⟨hanonymous, hcount⟩
  refine h ?_
  unfold withEvent
  cases event.id with
  | some id =>
    refine ⟨hanonymous, Nat.lt_of_lt_of_le hcount ?_⟩
    exact Nat.add_le_add_right (Dictionary.size_le_size_insert _ _ _) _
  | none =>
    refine ⟨rfl, Nat.lt_of_lt_of_le hcount ?_⟩
    rw [eventCount, eventCount, hanonymous]
    exact Nat.le_refl _

/-- Two events that can be added can be added the other way round. -/
lemma withEvent_comm (h : stream.Lacks event₁) (h' : (stream.withEvent event₁).Lacks event₂) :
    stream.Lacks event₂ ∧ (stream.withEvent event₂).Lacks event₁ ∧
      (stream.withEvent event₂).withEvent event₁ = (stream.withEvent event₁).withEvent event₂ := by
  unfold Lacks withEvent at *
  cases hid₁ : event₁.id with
  | some id₁ =>
    cases hid₂ : event₂.id with
    | some id₂ =>
      rw [hid₁] at h h'
      rw [hid₂] at h'
      dsimp only at h h' ⊢
      rw [Dictionary.get?_insert] at h'
      split at h'
      · cases h'
      · rename_i hne
        refine ⟨h', ?_, by rw [Dictionary.insert_comm _ hne]⟩
        rw [Dictionary.get?_insert, if_neg (Ne.symm hne)]
        exact h
    | none =>
      rw [hid₁] at h h'
      rw [hid₂] at h'
      exact ⟨h', h, rfl⟩
  | none =>
    cases hid₂ : event₂.id with
    | some id₂ =>
      rw [hid₁] at h h'
      rw [hid₂] at h'
      exact ⟨h', h, rfl⟩
    | none =>
      rw [hid₁, hid₂] at h'
      cases h'

lemma addEvent_comm (h : stream.addEvent key event₁ = .ok stream₁)
    (h' : stream₁.addEvent key event₂ = .ok stream₂) :
    ∃ other, stream.addEvent key event₂ = .ok other ∧ other.addEvent key event₁ = .ok stream₂ := by
  obtain ⟨hlacks, rfl, -⟩ := addEvent_eq_ok_iff.mp h
  obtain ⟨hlacks', rfl, hunmistakable⟩ := addEvent_eq_ok_iff.mp h'
  obtain ⟨hother, hother', heq⟩ := withEvent_comm hlacks hlacks'
  rw [← heq] at hunmistakable ⊢
  exact ⟨_, addEvent_eq_ok_iff.mpr ⟨hother, rfl, hunmistakable.of_withEvent⟩,
    addEvent_eq_ok_iff.mpr ⟨hother', rfl, hunmistakable⟩⟩

end StreamSchema

/-! ## All streams -/

section Streams

variable {alone : Bool} {streams streams' streams₁ streams₂ : Dictionary ℕ StreamSchema}
  {event event₁ event₂ : EventSchema}

lemma addEvent_eq_ok_iff :
    addEvent alone streams event = .ok streams' ↔
      ∃ key stream stream', event.streamKey alone streams = .ok key ∧ streams.get? key = some stream ∧
        stream.addEvent key event = .ok stream' ∧ streams' = streams.insert key stream' := by
  constructor
  · intro h
    obtain ⟨key, hkey, h⟩ := exists_of_bind_eq_ok h
    split at h
    · cases h
    · rename_i stream hget
      obtain ⟨stream', hadd, h⟩ := exists_of_bind_eq_ok h
      cases h
      exact ⟨key, stream, stream', hkey, hget, hadd, rfl⟩
  · rintro ⟨key, stream, stream', hkey, hget, hadd, rfl⟩
    have hknown : (Except.ok key : Except SchemaError ℕ) = pure key := rfl
    rw [addEvent, hkey, hknown, pure_bind, hget]
    dsimp only
    rw [hadd]
    rfl

/-- The stream of an event depends on the keys of the streams only. -/
lemma streamKey_eq (h : streams'.keys = streams.keys) :
    event.streamKey alone streams' = event.streamKey alone streams := by
  rw [EventSchema.streamKey, EventSchema.streamKey, h]

lemma addEvent_comm (hsorted : streams.Sorted) (h : addEvent alone streams event₁ = .ok streams₁)
    (h' : addEvent alone streams₁ event₂ = .ok streams₂) :
    ∃ other, addEvent alone streams event₂ = .ok other ∧ addEvent alone other event₁ = .ok streams₂ := by
  obtain ⟨key, stream, stream₁, hkey, hget, hadd, rfl⟩ := addEvent_eq_ok_iff.mp h
  obtain ⟨key', stream', stream₂, hkey', hget', hadd', rfl⟩ := addEvent_eq_ok_iff.mp h'
  rw [streamKey_eq (hsorted.keys_insert hget stream₁)] at hkey'
  rw [Dictionary.get?_insert] at hget'
  by_cases hsame : key' = key
  · subst hsame
    rw [if_pos rfl] at hget'
    cases hget'
    obtain ⟨other, hother, hother'⟩ := StreamSchema.addEvent_comm hadd hadd'
    refine ⟨streams.insert key' other,
      addEvent_eq_ok_iff.mpr ⟨key', stream, other, hkey', hget, hother, rfl⟩,
      addEvent_eq_ok_iff.mpr ⟨key', other, stream₂, ?_, ?_, hother', ?_⟩⟩
    · rwa [streamKey_eq (hsorted.keys_insert hget other)]
    · rw [Dictionary.get?_insert, if_pos rfl]
    · rw [Dictionary.insert_insert, Dictionary.insert_insert]
  · rw [if_neg hsame] at hget'
    refine ⟨streams.insert key' stream₂,
      addEvent_eq_ok_iff.mpr ⟨key', stream', stream₂, hkey', hget', hadd', rfl⟩,
      addEvent_eq_ok_iff.mpr ⟨key, stream, stream₁, ?_, ?_, hadd, ?_⟩⟩
    · rwa [streamKey_eq (hsorted.keys_insert hget' stream₂)]
    · rw [Dictionary.get?_insert, if_neg (Ne.symm hsame)]
      exact hget
    · exact Dictionary.insert_comm _ (Ne.symm hsame) _ _

lemma sorted_of_addEvent (hsorted : streams.Sorted) (h : addEvent alone streams event = .ok streams') :
    streams'.Sorted := by
  obtain ⟨key, _, stream', _, _, _, rfl⟩ := addEvent_eq_ok_iff.mp h
  exact hsorted.insert key stream'

/-- **The order in which events are bound does not matter.** -/
theorem bindEvents_perm {declared : List StreamSchema} {events events' : List EventSchema}
    (h : events.Perm events') (hok : bindEvents declared events = .ok streams) :
    bindEvents declared events' = .ok streams := by
  have hpresent : presentStreams declared events' = presentStreams declared events := by
    have hempty : events'.isEmpty = events.isEmpty := by
      rw [Bool.eq_iff_iff, List.isEmpty_iff, List.isEmpty_iff, ← List.perm_nil, ← List.perm_nil]
      exact ⟨h.trans, h.symm.trans⟩
    rw [presentStreams, presentStreams, hempty]
  obtain ⟨bare, hbare, hok⟩ := exists_of_bind_eq_ok hok
  have hsorted : bare.Sorted := by
    refine of_foldlM_eq_ok (P := Dictionary.Sorted) .empty ?_ hbare
    intro before after stream _ hbefore hadd
    obtain ⟨key, rfl⟩ := exists_of_addStream hadd
    exact hbefore.insert key stream
  unfold bindEvents
  dsimp only
  rw [hpresent, hbare]
  refine foldlM_perm (P := Dictionary.Sorted) (fun _ _ _ hsorted h => ?_)
    (fun _ _ _ _ _ hsorted h h' => ?_)
    h hsorted hok
  · exact sorted_of_addEvent hsorted h
  · exact addEvent_comm hsorted h h'

end Streams

end CommonTrace
