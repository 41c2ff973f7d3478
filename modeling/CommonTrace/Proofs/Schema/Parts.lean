import CommonTrace.Proofs.Bit.Positional
import CommonTrace.Proofs.Schema.Accepted
import CommonTrace.Proofs.Schema.Trees
import Mathlib.Logic.Relation

/-!
# What a declaration promises

The checks on types are made in many places, and some of them late: a variant with a name may lack its tag
until it becomes a member, and the clocks are looked up after all blocks have been read.  Still, in metadata
that is accepted, each declaration keeps all of them, however deep it lies in a block
(`Metadata.proper_of_ofTree`).

A declaration lies in another one as its element, its member or its alternative
(`FieldType.HasPart`).  The tag of a variant is promised by the declaration around it, not by its own
building; therefore `WellFormed` and `IsTagged` go down to the parts together.
-/

namespace CommonTrace

namespace FieldType

variable {clocks : Set String} {t u : FieldType}

/-- The second type is an immediate part of the first. -/
inductive HasPart : FieldType → FieldType → Prop where
  | element (element : FieldType) (length : ℕ) : HasPart (.array element length) element
  | item (element : FieldType) (length : FieldPath) : HasPart (.sequence element length) element
  | member {least : ℕ} {members : List (String × FieldType)} {member : String × FieldType}
      (h : member ∈ members) : HasPart (.struct least members) member.2
  | alternative {tag : Option FieldPath} {alternatives : List (String × FieldType)}
      {alternative : String × FieldType} (h : alternative ∈ alternatives) :
      HasPart (.variant tag alternatives) alternative.2

/-- The second type lies in the first, at any depth, or is the first. -/
abbrev Reaches : FieldType → FieldType → Prop :=
  Relation.ReflTransGen HasPart

/-- **What a declaration promises**, apart from its parts. -/
structure Proper (clocks : Set String) (t : FieldType) : Prop where
  width : ∀ i ∈ t.integer?, 1 ≤ i.width ∧ i.width ≤ 64
  base : ∀ i ∈ t.integer?, i.base ∈ [2, 8, 10, 16]
  clock : ∀ clock ∈ t.clock?, clock ∈ clocks
  digits : ∀ f, t = .float f → 2 ≤ f.exponent ∧ 2 ≤ f.mantissa ∧ f.exponent + f.mantissa ≤ 64
  alignment : ∃ k, t.alignment = 2 ^ k
  ranges : ∀ e, t = .enum e → ∀ range ∈ e.ranges, range.Within e.container
  members : ∀ least members, t = .struct least members → (members.map Prod.fst).Nodup
  alternatives : ∀ tag alternatives, t = .variant tag alternatives →
    tag.isSome = true ∧ alternatives ≠ [] ∧ (alternatives.map Prod.fst).Nodup

/-! ## Parts -/

/-- A part of a type with its tags is well formed and has its tag. -/
lemma WellFormed.of_hasPart (h : t.WellFormed clocks) (htagged : t.IsTagged) (hpart : t.HasPart u) :
    u.WellFormed clocks ∧ u.IsTagged := by
  cases hpart with
  | element _ length =>
    cases h with
    | array helement => exact ⟨helement, htagged⟩
  | item _ length =>
    cases h with
    | sequence helement => exact ⟨helement, htagged⟩
  | member hmember =>
    cases h with
    | struct _ hmembers htypes => exact ⟨htypes _ hmember, hmembers.tagged _ hmember⟩
  | alternative halternative =>
    cases h with
    | variant hmembers _ htypes => exact ⟨htypes _ halternative, hmembers.tagged _ halternative⟩

lemma WellFormed.of_reaches (h : t.WellFormed clocks) (htagged : t.IsTagged) (hreach : t.Reaches u) :
    u.WellFormed clocks ∧ u.IsTagged := by
  induction hreach with
  | refl => exact ⟨h, htagged⟩
  | tail _ hpart ih => exact ih.1.of_hasPart ih.2 hpart

/-- The integers that make up a value are of a well-formed type. -/
lemma WellFormed.integer? (h : t.WellFormed clocks) {i : IntegerType} (hi : i ∈ t.integer?) :
    i.WellFormed ∧ i.IsTimed clocks := by
  cases h with
  | integer h htimed =>
    cases hi
    exact ⟨h, htimed⟩
  | enum h htimed =>
    cases hi
    exact ⟨h, htimed⟩
  | _ => cases hi

/-- A well-formed type with its tag keeps all promises. -/
lemma WellFormed.proper (h : t.WellFormed clocks) (htagged : t.IsTagged) : t.Proper clocks where
  width i hi := ⟨(h.integer? hi).1.width_pos, (h.integer? hi).1.width_le⟩
  base i hi := (h.integer? hi).1.base
  clock clock hclock := by
    obtain ⟨i, hi, hclock⟩ := Option.bind_eq_some_iff.mp hclock
    exact (h.integer? hi).2 clock hclock
  digits := by
    rintro f rfl
    cases h with
    | float h => exact ⟨h.exponent, h.mantissa, h.width_le⟩
  alignment := by
    obtain ⟨k, hk⟩ := h.isAlignment
    exact ⟨k, by rw [hk, twoPow_eq]⟩
  ranges := by
    rintro e rfl
    cases h with
    | enum _ _ hranges => exact hranges
  members := by
    rintro least members rfl
    cases h with
    | struct _ hmembers => exact hmembers.names
  alternatives := by
    rintro tag alternatives rfl
    cases h with
    | variant hmembers hnonempty =>
      refine ⟨?_, hnonempty, hmembers.names⟩
      cases tag with
      | none => exact htagged.elim
      | some tag => rfl

end FieldType

/-! ## Blocks -/

/-- The layouts of an event. -/
def EventSchema.layouts (event : EventSchema) : List FieldType :=
  event.context.toList ++ event.fields.toList

/-- The layouts of a stream and of its events. -/
def StreamSchema.layouts (stream : StreamSchema) : List FieldType :=
  stream.packetContext.toList ++ stream.eventHeader.toList ++ stream.eventContext.toList ++
    stream.eventList.flatMap EventSchema.layouts

/-- The layouts of all blocks. -/
def Metadata.layouts (metadata : Metadata) : List FieldType :=
  metadata.packetHeader.toList ++ metadata.streams.values.flatMap StreamSchema.layouts

section Layouts

variable {clocks : Set String} {t : FieldType}

lemma FieldType.IsLayout.isTagged (h : t.IsLayout clocks) : t.IsTagged := by
  cases t with
  | struct => exact trivial
  | _ => cases h.isStruct

lemma EventSchema.LaidOut.isLayout {event : EventSchema} (h : event.LaidOut clocks)
    (ht : t ∈ event.layouts) : t.IsLayout clocks := by
  rcases List.mem_append.mp ht with ht | ht
  · exact h.context t (Option.mem_toList.mp ht)
  · exact h.fields t (Option.mem_toList.mp ht)

lemma StreamSchema.LaidOut.isLayout {stream : StreamSchema} (h : stream.LaidOut clocks)
    (ht : t ∈ stream.layouts) : t.IsLayout clocks := by
  rcases List.mem_append.mp ht with ht | ht
  · rw [List.append_assoc, List.mem_append, List.mem_append] at ht
    rcases ht with ht | ht | ht
    · exact h.packetContext t (Option.mem_toList.mp ht)
    · exact h.eventHeader t (Option.mem_toList.mp ht)
    · exact h.eventContext t (Option.mem_toList.mp ht)
  · obtain ⟨event, hevent, ht⟩ := List.mem_flatMap.mp ht
    exact (h.events event hevent).isLayout ht

lemma Metadata.Accepted.isLayout {metadata : Metadata} (h : metadata.Accepted)
    (ht : t ∈ metadata.layouts) : t.IsLayout metadata.clockNames := by
  rcases List.mem_append.mp ht with ht | ht
  · exact h.packetHeader t (Option.mem_toList.mp ht)
  · obtain ⟨stream, hstream, ht⟩ := List.mem_flatMap.mp ht
    obtain ⟨entry, hentry, rfl⟩ := List.mem_map.mp hstream
    exact (h.streams entry hentry).isLayout ht

end Layouts

/-- **Each declaration in accepted metadata keeps its promises.**  The layouts of all blocks are structures,
and every declaration that lies in one of them is as it should be; an integer that tells the time does so by
a clock of the metadata. -/
theorem Metadata.proper_of_ofTree {root : Tsdl.Node} {metadata : Metadata}
    (h : Metadata.ofTree root = .ok metadata) :
    ∀ block ∈ metadata.layouts, block.isStruct = true ∧
      ∀ t, block.Reaches t → t.Proper metadata.clockNames := by
  intro block hblock
  have hlayout := (accepted_of_ofTree h).1.isLayout hblock
  refine ⟨hlayout.isStruct, fun t hreach => ?_⟩
  obtain ⟨ht, htagged⟩ := hlayout.wellFormed.of_reaches hlayout.isTagged hreach
  exact ht.proper htagged

section Example

open Tsdl

/-- A tree with a clock and one kind of event, the payload of which is a time by that clock. -/
def timedEvent : Node :=
  .block .root
    [.block .clock [.value "name" (.word .unaryString "c")],
      .block .event
        [.value "name" (.word .unaryString "e"),
          .type "fields" (.struct
            [.member (.block .integer [.value "size" (.word .unaryDec "8"),
              .value "map" (.word .unaryString "clock.c.value")]) "t" []])]]

/-- Whether some layout of the metadata begins with a time by the given clock. -/
def tellsTime (metadata : Metadata) (clock : String) : Bool :=
  metadata.layouts.any fun block => match block with
    | .struct _ ((_, t) :: _) => t.clock? = some clock
    | _ => false

theorem proper_of_ofTree_timedEvent : ∃ metadata block t,
    Metadata.ofTree timedEvent = .ok metadata ∧ block ∈ metadata.layouts ∧ block.Reaches t ∧
      t.clock? = some "c" ∧ block.isStruct = true ∧ t.Proper metadata.clockNames := by
  have haccepted : (Metadata.ofTree timedEvent).toOption.any (tellsTime · "c") = true := by
    decide +kernel
  obtain ⟨metadata, hsome, htells⟩ := (Option.any_eq_true _ _).mp haccepted
  have hmetadata := eq_ok_of_toOption hsome
  obtain ⟨block, hblock, hfirst⟩ := List.any_eq_true.mp htells
  split at hfirst
  · rename_i least name t members
    have hreach : (FieldType.struct least ((name, t) :: members)).Reaches t :=
      .single (.member List.mem_cons_self)
    obtain ⟨hstruct, hproper⟩ := Metadata.proper_of_ofTree hmetadata _ hblock
    exact ⟨metadata, _, t, hmetadata, hblock, hreach, of_decide_eq_true hfirst, hstruct, hproper t hreach⟩
  · cases hfirst

end Example

end CommonTrace
