import CommonTrace.Schema.Basic
import Mathlib.Data.List.Nodup
import Mathlib.Data.Nat.Notation
import Mathlib.Data.Set.Basic
import Mathlib.Tactic.Lemma

/-!
# Well-formed types

`FieldType.WellFormed` says what every type is like that metadata can describe.  The conditions on
numbers are those under which their values can be read, a member of a structure or a variant is known by
its name, and an integer that tells the time does so by one of the given clocks.  With more clocks given,
a type stays well formed.

A variant may still lack its tag, for a named variant is given one where it is used.

No structure in a well-formed type has two members of the same name, which `FieldType.Distinct` says
by recursion on the type.
-/

namespace CommonTrace

/-- Whether a number can be an alignment. -/
def IsAlignment (n : ℕ) : Prop :=
  ∃ k, n = twoPow k

lemma isAlignment_one : IsAlignment 1 :=
  ⟨0, rfl⟩

lemma isAlignment_defaultAlignment (width : ℕ) : IsAlignment (defaultAlignment width) := by
  unfold defaultAlignment
  split
  · exact ⟨3, rfl⟩
  · exact isAlignment_one

lemma IsAlignment.pos {n : ℕ} (h : IsAlignment n) : 0 < n := by
  obtain ⟨k, rfl⟩ := h
  exact twoPow_pos k

lemma IsAlignment.max {m n : ℕ} (hm : IsAlignment m) (hn : IsAlignment n) : IsAlignment (max m n) := by
  rcases Nat.le_total m n with h | h
  · rwa [Nat.max_eq_right h]
  · rwa [Nat.max_eq_left h]

/-- An integer type of at most sixty-four bits. -/
structure IntegerType.WellFormed (t : IntegerType) : Prop where
  width_pos : 0 < t.width
  width_le : t.width ≤ 64
  alignment : IsAlignment t.alignment
  base : t.base ∈ [2, 8, 10, 16]

/-- If the integers tell the time, they do so by one of the given clocks. -/
def IntegerType.IsTimed (clocks : Set String) (t : IntegerType) : Prop :=
  ∀ clock ∈ t.clock, clock ∈ clocks

lemma IntegerType.IsTimed.mono {clocks more : Set String} {t : IntegerType} (h : t.IsTimed clocks)
    (hmore : clocks ⊆ more) : t.IsTimed more :=
  fun clock hclock => hmore (h clock hclock)

/-- A floating point type of at most sixty-four bits. -/
structure FloatType.WellFormed (t : FloatType) : Prop where
  exponent : 2 ≤ t.exponent
  mantissa : 2 ≤ t.mantissa
  width_le : t.exponent + t.mantissa ≤ 64
  alignment : IsAlignment t.alignment

/-- A range of labelled integers lies among the integers of the given type. -/
structure LabelRange.Within (container : IntegerType) (range : LabelRange) : Prop where
  minimum_le : container.minimum ≤ range.low
  low_le : range.low ≤ range.high
  le_maximum : range.high ≤ container.maximum

namespace FieldType

/-- Whether a type is no variant without a tag, and no array of such. -/
def IsTagged : FieldType → Prop
  | .variant none _ => False
  | .array element _ => IsTagged element
  | .sequence element _ => IsTagged element
  | _ => True

/-- A member has its tag, and is called by a name of its own, which is not empty. -/
structure Members (members : List (String × FieldType)) : Prop where
  names : (members.map Prod.fst).Nodup
  nonempty : ∀ member ∈ members, member.1 ≠ ""
  tagged : ∀ member ∈ members, member.2.IsTagged

/-- **Well-formed types**, with the clocks that their integers may tell the time by. -/
inductive WellFormed (clocks : Set String) : FieldType → Prop where
  | integer {t : IntegerType} (h : t.WellFormed) (htimed : t.IsTimed clocks) :
      WellFormed clocks (.integer t)
  | float {t : FloatType} (h : t.WellFormed) : WellFormed clocks (.float t)
  | string (encoding : Encoding) : WellFormed clocks (.string encoding)
  | enum {t : EnumType} (hcontainer : t.container.WellFormed) (htimed : t.container.IsTimed clocks)
      (hranges : ∀ range ∈ t.ranges, range.Within t.container) : WellFormed clocks (.enum t)
  | array {element : FieldType} {length : ℕ} (h : WellFormed clocks element)
      (hlength : length < twoPow 64) : WellFormed clocks (.array element length)
  | sequence {element : FieldType} {length : FieldPath} (h : WellFormed clocks element) :
      WellFormed clocks (.sequence element length)
  | struct {least : ℕ} {members : List (String × FieldType)} (halignment : IsAlignment least)
      (hmembers : Members members) (htypes : ∀ member ∈ members, WellFormed clocks member.2) :
      WellFormed clocks (.struct least members)
  | variant {tag : Option FieldPath} {alternatives : List (String × FieldType)}
      (hmembers : Members alternatives) (hnonempty : alternatives ≠ [])
      (htypes : ∀ alternative ∈ alternatives, WellFormed clocks alternative.2) :
      WellFormed clocks (.variant tag alternatives)

lemma WellFormed.mono {clocks more : Set String} (hmore : clocks ⊆ more) {t : FieldType}
    (h : t.WellFormed clocks) : t.WellFormed more := by
  induction h with
  | integer h htimed => exact .integer h (htimed.mono hmore)
  | float h => exact .float h
  | string encoding => exact .string encoding
  | enum h htimed hranges => exact .enum h (htimed.mono hmore) hranges
  | array _ hlength ih => exact .array ih hlength
  | sequence _ ih => exact .sequence ih
  | struct halignment hmembers _ ih => exact .struct halignment hmembers ih
  | variant hmembers hnonempty _ ih => exact .variant hmembers hnonempty ih

lemma isAlignment_alignmentOfMembers {members : List (String × FieldType)}
    (h : ∀ member ∈ members, IsAlignment member.2.alignment) :
    IsAlignment (alignmentOfMembers members) := by
  induction members with
  | nil => exact isAlignment_one
  | cons member members ih =>
    obtain ⟨hfirst, hrest⟩ := List.forall_mem_cons.mp h
    exact hfirst.max (ih hrest)

/-- The alignment of a well-formed type is a power of two. -/
lemma WellFormed.isAlignment {clocks : Set String} {t : FieldType} (h : t.WellFormed clocks) :
    IsAlignment t.alignment := by
  induction h with
  | integer h | float h => exact h.alignment
  | string => exact ⟨3, rfl⟩
  | enum h => exact h.alignment
  | array _ _ ih | sequence _ ih => exact ih
  | struct halignment _ _ ih =>
    exact (halignment.max isAlignment_one).max (isAlignment_alignmentOfMembers ih)
  | variant => exact isAlignment_one

/-! ## Distinct names -/

mutual

/-- No structure in the type has two members of the same name. -/
def Distinct (t : FieldType) : Prop :=
  match t with
  | .array element _ => Distinct element
  | .sequence element _ => Distinct element
  | .struct _ members => (members.map Prod.fst).Nodup ∧ DistinctMembers members
  | .variant _ alternatives => DistinctMembers alternatives
  | .integer _ | .float _ | .string _ | .enum _ => True
termination_by structural t

/-- No structure in the types of the members has two members of the same name. -/
def DistinctMembers (members : List (String × FieldType)) : Prop :=
  match members with
  | [] => True
  | (_, t) :: rest => Distinct t ∧ DistinctMembers rest
termination_by structural members

end


lemma distinctMembers_of_forall {members : List (String × FieldType)}
    (h : ∀ member ∈ members, member.2.Distinct) : DistinctMembers members := by
  induction members with
  | nil => exact trivial
  | cons member members ih =>
    obtain ⟨hfirst, hrest⟩ := List.forall_mem_cons.mp h
    exact ⟨hfirst, ih hrest⟩

theorem WellFormed.distinct {clocks : Set String} {t : FieldType} (h : t.WellFormed clocks) :
    t.Distinct := by
  induction h with
  | integer | float | string | enum => exact trivial
  | array _ _ ih => exact ih
  | sequence _ ih => exact ih
  | struct _ hmembers _ ih => exact ⟨hmembers.names, distinctMembers_of_forall ih⟩
  | variant _ _ _ ih => exact distinctMembers_of_forall ih

end FieldType

/-! ## Layouts -/

section Layouts

variable {clocks more : Set String}

/-- The layout of a block is a structure. -/
structure FieldType.IsLayout (clocks : Set String) (t : FieldType) : Prop where
  isStruct : t.isStruct = true
  wellFormed : t.WellFormed clocks

/-- If the block has a layout, it is one. -/
def BlockLaidOut (clocks : Set String) (t : Option FieldType) : Prop :=
  ∀ u ∈ t, u.IsLayout clocks

lemma blockLaidOut_some {t : FieldType} (h : t.IsLayout clocks) : BlockLaidOut clocks (some t) := by
  rintro _ ⟨⟩
  exact h

lemma blockLaidOut_none : BlockLaidOut clocks none :=
  fun _ h => absurd h (Option.not_mem_none _)

lemma BlockLaidOut.mono {t : Option FieldType} (h : BlockLaidOut clocks t) (hmore : clocks ⊆ more) :
    BlockLaidOut more t :=
  fun u hu => ⟨(h u hu).isStruct, (h u hu).wellFormed.mono hmore⟩

/-- The layouts of an event are layouts. -/
structure EventSchema.LaidOut (clocks : Set String) (event : EventSchema) : Prop where
  context : BlockLaidOut clocks event.context
  fields : BlockLaidOut clocks event.fields

lemma EventSchema.LaidOut.mono {event : EventSchema} (h : event.LaidOut clocks)
    (hmore : clocks ⊆ more) : event.LaidOut more where
  context := h.context.mono hmore
  fields := h.fields.mono hmore

/-- The layouts of a stream and of its events are layouts. -/
structure StreamSchema.LaidOut (clocks : Set String) (stream : StreamSchema) : Prop where
  packetContext : BlockLaidOut clocks stream.packetContext
  eventHeader : BlockLaidOut clocks stream.eventHeader
  eventContext : BlockLaidOut clocks stream.eventContext
  events : ∀ event ∈ stream.eventList, event.LaidOut clocks

lemma StreamSchema.LaidOut.mono {stream : StreamSchema} (h : stream.LaidOut clocks)
    (hmore : clocks ⊆ more) : stream.LaidOut more where
  packetContext := h.packetContext.mono hmore
  eventHeader := h.eventHeader.mono hmore
  eventContext := h.eventContext.mono hmore
  events event hevent := (h.events event hevent).mono hmore

lemma StreamSchema.laidOut_empty : StreamSchema.empty.LaidOut clocks where
  packetContext := blockLaidOut_none
  eventHeader := blockLaidOut_none
  eventContext := blockLaidOut_none
  events _ h := absurd h List.not_mem_nil

end Layouts

end CommonTrace
