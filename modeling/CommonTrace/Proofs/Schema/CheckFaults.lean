import CommonTrace.Proofs.Field.Occupancy
import CommonTrace.Proofs.Schema.Parts

/-!
# What the check of the paths stops at

The check stops at lengths and tags that cannot be found, at variants without a tag, at elements that take no
bits, and at events that take none.  What a fault speaks of is there: the block at the place that is given,
with the part that is at fault in it (`FieldType.CheckFault`), or the event with that name in that stream
(`Metadata.CheckFault`).
-/

namespace CommonTrace

/-! ## Types -/

/-- **What stops the check of a block**: in its layout there is a length or a tag, a variant without a tag, or
an array or a sequence whose elements take no bits. -/
inductive FieldType.CheckFault (place : BlockPlace) (t : FieldType) : SchemaError → Prop
  | length {element : FieldType} {path : FieldPath} (hreach : t.Reaches (.sequence element path)) :
      CheckFault place t (.unresolvedPath path place)
  | tag {tag : FieldPath} {alternatives : List (String × FieldType)}
      (hreach : t.Reaches (.variant (some tag) alternatives)) :
      CheckFault place t (.unresolvedPath tag place)
  | untagged {alternatives : List (String × FieldType)} (hreach : t.Reaches (.variant none alternatives)) :
      CheckFault place t (.invalid (.variantUntagged place))
  | elements {u element : FieldType} (hreach : t.Reaches u) (helement : u.element? = some element)
      (hbits : element.occupiesNoBits = true) :
      CheckFault place t (.invalid (.elementsWithoutBits element.kind place))

/-- A fault in a part is one in the whole. -/
lemma FieldType.CheckFault.of_hasPart {place : BlockPlace} {t u : FieldType} {e : SchemaError}
    (h : u.CheckFault place e) (hpart : t.HasPart u) : t.CheckFault place e := by
  cases h with
  | length hreach => exact .length (hreach.head hpart)
  | tag hreach => exact .tag (hreach.head hpart)
  | untagged hreach => exact .untagged (hreach.head hpart)
  | elements hreach helement hbits => exact .elements (hreach.head hpart) helement hbits

namespace View

lemma of_expect_eq_error {view : View} {path : FieldPath} {accepts : FieldType → Bool} {e : SchemaError}
    (h : view.expect path accepts = .error e) : e = .unresolvedPath path view.place := by
  unfold expect at h
  split at h
  · cases h
  · cases h
    rfl

lemma of_expectBits_eq_error {view : View} {element : FieldType} {e : SchemaError}
    (h : view.expectBits element = .error e) :
    element.occupiesNoBits = true ∧ e = .invalid (.elementsWithoutBits element.kind view.place) := by
  unfold expectBits at h
  split at h
  · rename_i hbits
    cases h
    exact ⟨hbits, rfl⟩
  · cases h

mutual

/-- What stops the check of a type lies in it. -/
theorem fault_of_check (view : View) (t : FieldType) {e : SchemaError} (h : view.check t = .error e) :
    t.CheckFault view.place e := by
  match t with
  | .integer _ | .float _ | .string _ | .enum _ => cases h
  | .array element _ =>
    rw [check] at h
    rcases error_of_bind_eq_error h with helement | ⟨_, -, hinside⟩
    · obtain ⟨hbits, rfl⟩ := of_expectBits_eq_error helement
      exact .elements .refl rfl hbits
    · exact (fault_of_check view element hinside).of_hasPart (.element element _)
  | .sequence element path =>
    rw [check] at h
    rcases error_of_bind_eq_error h with hpath | ⟨_, -, h⟩
    · obtain rfl := of_expect_eq_error hpath
      exact .length .refl
    · rcases error_of_bind_eq_error h with helement | ⟨_, -, hinside⟩
      · obtain ⟨hbits, rfl⟩ := of_expectBits_eq_error helement
        exact .elements .refl rfl hbits
      · exact (fault_of_check view element hinside).of_hasPart (.item element path)
  | .struct _ fields =>
    rw [check] at h
    obtain ⟨member, hmember, hfault⟩ := fault_of_checkFields view [] fields h
    exact hfault.of_hasPart (.member hmember)
  | .variant none _ =>
    cases h
    exact .untagged .refl
  | .variant (some tag) alternatives =>
    rw [check] at h
    rcases error_of_bind_eq_error h with htag | ⟨_, -, hinside⟩
    · obtain rfl := of_expect_eq_error htag
      exact .tag .refl
    · obtain ⟨alternative, halternative, hfault⟩ := fault_of_checkAlternatives view alternatives hinside
      exact hfault.of_hasPart (.alternative halternative)
termination_by structural t

theorem fault_of_checkFields (view : View) (before fields : List (String × FieldType)) {e : SchemaError}
    (h : view.checkFields before fields = .error e) :
    ∃ member ∈ fields, member.2.CheckFault view.place e := by
  match fields with
  | [] => cases h
  | (name, t) :: rest =>
    rw [checkFields] at h
    rcases error_of_bind_eq_error h with hhere | ⟨_, -, hthere⟩
    · exact ⟨(name, t), List.mem_cons_self, fault_of_check (view.enter before) t hhere⟩
    · obtain ⟨member, hmember, hfault⟩ := fault_of_checkFields view ((name, t) :: before) rest hthere
      exact ⟨member, List.mem_cons_of_mem _ hmember, hfault⟩
termination_by structural fields

theorem fault_of_checkAlternatives (view : View) (alternatives : List (String × FieldType))
    {e : SchemaError} (h : view.checkAlternatives alternatives = .error e) :
    ∃ alternative ∈ alternatives, alternative.2.CheckFault view.place e := by
  match alternatives with
  | [] => cases h
  | (name, t) :: rest =>
    rw [checkAlternatives] at h
    rcases error_of_bind_eq_error h with hhere | ⟨_, -, hthere⟩
    · exact ⟨(name, t), List.mem_cons_self, fault_of_check view t hhere⟩
    · obtain ⟨alternative, halternative, hfault⟩ := fault_of_checkAlternatives view rest hthere
      exact ⟨alternative, List.mem_cons_of_mem _ halternative, hfault⟩
termination_by structural alternatives

end

end View

/-! ## Blocks and events -/

lemma fault_of_checkBlocks {stream : ℕ} {event : Option String}
    {earlier blocks : List (StaticScope × FieldType)} {e : SchemaError}
    (h : checkBlocks stream event earlier blocks = .error e) :
    ∃ entry ∈ blocks, entry.2.CheckFault { stream, event, block := entry.1 } e := by
  induction blocks generalizing earlier with
  | nil => cases h
  | cons entry blocks ih =>
    rcases error_of_bind_eq_error h with hhere | ⟨_, -, hthere⟩
    · exact ⟨entry, List.mem_cons_self, View.fault_of_check _ entry.2 hhere⟩
    · obtain ⟨other, hother, hfault⟩ := ih hthere
      exact ⟨other, List.mem_cons_of_mem _ hother, hfault⟩

lemma exists_of_forM_eq_error {α ε : Type} {f : α → Except ε Unit} {items : List α} {e : ε}
    (h : items.forM f = .error e) : ∃ item ∈ items, f item = .error e := by
  induction items with
  | nil => cases h
  | cons item items ih =>
    rcases error_of_bind_eq_error h with hhere | ⟨_, -, hthere⟩
    · exact ⟨item, List.mem_cons_self, hhere⟩
    · obtain ⟨other, hother, hfault⟩ := ih hthere
      exact ⟨other, List.mem_cons_of_mem _ hother, hfault⟩

namespace Metadata

variable {metadata : Metadata} {e : SchemaError}

/-- The event is one of the stream with the given key. -/
def HasEvent (metadata : Metadata) (key : ℕ) (stream : StreamSchema) (event : EventSchema) : Prop :=
  (key, stream) ∈ metadata.streams.entries ∧ event ∈ stream.eventList

/-- The block at the place has the given layout. -/
inductive HasLayout (metadata : Metadata) : BlockPlace → FieldType → Prop
  | ofStream {key : ℕ} {stream : StreamSchema} {block : StaticScope} {t : FieldType}
      (hstream : (key, stream) ∈ metadata.streams.entries)
      (hblock : (block, t) ∈ metadata.streamBlocks stream) :
      HasLayout metadata { stream := key, event := none, block } t
  | ofEvent {key : ℕ} {stream : StreamSchema} {event : EventSchema} {block : StaticScope} {t : FieldType}
      (hevent : metadata.HasEvent key stream event) (hblock : (block, t) ∈ event.blocks) :
      HasLayout metadata { stream := key, event := some event.name, block } t

/-- **What stops the check of a trace**: a fault in the layout of a block, at the place that the fault names,
or an event all of whose layouts take no bits. -/
inductive CheckFault (metadata : Metadata) : SchemaError → Prop
  | layout {place : BlockPlace} {t : FieldType} {e : SchemaError} (hlayout : metadata.HasLayout place t)
      (hfault : t.CheckFault place e) : CheckFault metadata e
  | event {key : ℕ} {stream : StreamSchema} {event : EventSchema}
      (hevent : metadata.HasEvent key stream event)
      (hbits : ∀ t ∈ event.layout stream, t.occupiesNoBits = true) :
      CheckFault metadata (.invalid (.eventWithoutBits event.name key))

/-- **What stops the check is there.** -/
theorem fault_of_checkPaths (h : metadata.checkPaths = .error e) : metadata.CheckFault e := by
  obtain ⟨⟨key, stream⟩, hstream, h⟩ := exists_of_forM_eq_error h
  rcases error_of_bind_eq_error h with hblocks | ⟨_, -, hevents⟩
  · obtain ⟨entry, hblock, hfault⟩ := fault_of_checkBlocks hblocks
    exact .layout (.ofStream hstream hblock) hfault
  · obtain ⟨event, hmem, h⟩ := exists_of_forM_eq_error hevents
    rcases error_of_bind_eq_error h with hblocks | ⟨_, -, h⟩
    · obtain ⟨entry, hblock, hfault⟩ := fault_of_checkBlocks hblocks
      exact .layout (.ofEvent ⟨hstream, hmem⟩ hblock) hfault
    · split at h
      · rename_i hall
        cases h
        exact .event ⟨hstream, hmem⟩ (List.all_eq_true.mp hall)
      · cases h

end Metadata

end CommonTrace
