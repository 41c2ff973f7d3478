import CommonTrace.Proofs.Field.WithoutBits
import CommonTrace.Proofs.Schema.CheckFaults
import CommonTrace.Proofs.Schema.Prior

/-!
# What is refused for taking no bits

Any number of elements that take no bits could be decoded from nothing, and of an event that takes none there
would be no end.  Metadata with such elements or such an event is refused.

Whether a type takes bits is told by its form, without any data.  But what is refused is there in metadata
that has been read, and it is of a form that makes it hollow: there could never be data in it
(`Metadata.hollow_of_refused`).
-/

namespace CommonTrace

open Tsdl

namespace Metadata

variable {root : Node} {e : SchemaError}

/-- What is found wrong by the check when a tree is read. -/
lemma exists_fault_of_ofTree (h : ofTree root = .error e) (he : e.IsOfCheck) :
    ∃ metadata, unchecked root = .ok metadata ∧ metadata.CheckFault e := by
  obtain ⟨metadata, hmetadata, hcheck⟩ := exists_unchecked_of_ofTree h he
  exact ⟨metadata, hmetadata, fault_of_checkPaths hcheck⟩

/-- **What is refused for taking no bits is hollow.**  Types without bits are: decoding one gives no data, and
leaves the position as it is where this is a multiple of all alignments.  If a tree is refused because of the
elements in a block, there are such elements in that block and their type is hollow; if it is refused because
of an event, there is such an event and all its layouts are hollow. -/
theorem hollow_of_refused :
    (∀ t : FieldType, t.occupiesNoBits = true → t.Hollow) ∧
    (∀ root kind place, ofTree root = .error (.invalid (.elementsWithoutBits kind place)) →
      ∃ metadata layout t element, unchecked root = .ok metadata ∧ metadata.HasLayout place layout ∧
        layout.Reaches t ∧ t.element? = some element ∧ element.kind = kind ∧ element.Hollow) ∧
    ∀ root name key, ofTree root = .error (.invalid (.eventWithoutBits name key)) →
      ∃ metadata stream event, unchecked root = .ok metadata ∧ metadata.HasEvent key stream event ∧
        event.name = name ∧ ∀ t ∈ event.layout stream, t.Hollow := by
  refine ⟨fun _ => FieldType.hollow_of_occupiesNoBits, fun _ _ _ h => ?_, fun _ _ _ h => ?_⟩
  · obtain ⟨metadata, hmetadata, hfault⟩ := exists_fault_of_ofTree h trivial
    cases hfault with
    | layout hlayout hfault =>
      cases hfault with
      | elements hreach helement hbits =>
        exact ⟨metadata, _, _, _, hmetadata, hlayout, hreach, helement, rfl,
          FieldType.hollow_of_occupiesNoBits hbits⟩
  · obtain ⟨metadata, hmetadata, hfault⟩ := exists_fault_of_ofTree h trivial
    cases hfault with
    | layout _ hfault => cases hfault
    | event hevent hbits =>
      exact ⟨metadata, _, _, hmetadata, hevent, rfl, fun t ht =>
        FieldType.hollow_of_occupiesNoBits (hbits t ht)⟩

section Example

/-- Three structures without members, each of which starts at a byte, and no words at all. -/
def emptyParts : FieldType :=
  .struct 16 [("marks", .array (.struct 8 []) 3),
    ("words", .array (.integer { IntegerType.plain 32 false .little with alignment := 32 }) 0)]

/-- The payload of an event behind a word of four bytes. -/
def behindWord : DecodeState where
  cursor := ⟨⟨#[1, 2, 3, 4, 5]⟩, 40, 32, by decide, by decide⟩
  scopes := { arena := (Arena.empty.openBlock .eventFields).2, outer := [] }

/-- A tree with one kind of event, which has a single member. -/
def eventOf (member : Node) : Node :=
  .block .root
    [.block .event [.value "name" (.word .unaryString "e"), .type "fields" (.struct [member])]]

/-- An event with three structures without members. -/
def markedEvent : Node :=
  eventOf (.member (.struct []) "marks" [.word .unaryDec "3"])

/-- An event with no bytes. -/
def emptyEvent : Node :=
  eventOf (.member (.integer "8") "bytes" [.word .unaryDec "0"])

theorem hollow_of_refused_markedEvent :
    (∃ f s', emptyParts.decode 10 0 "x" behindWord = .ok f s' ∧
      emptyParts.dataIn s'.scopes.arena f.value = 0 ∧ s'.cursor.position = 32) ∧
    ofTree markedEvent = .error (.invalid (.elementsWithoutBits "struct" ⟨0, some "e", .eventFields⟩)) ∧
    (∃ metadata layout t element, unchecked markedEvent = .ok metadata ∧
      metadata.HasLayout ⟨0, some "e", .eventFields⟩ layout ∧ layout.Reaches t ∧
      t.element? = some element ∧ element.kind = "struct" ∧ element.Hollow) ∧
    ofTree emptyEvent = .error (.invalid (.eventWithoutBits "e" 0)) ∧
    ∃ metadata stream event, unchecked emptyEvent = .ok metadata ∧ metadata.HasEvent 0 stream event ∧
      event.name = "e" ∧ ∀ t ∈ event.layout stream, t.Hollow := by
  obtain ⟨hhollow, helements, hevents⟩ := hollow_of_refused
  obtain ⟨f, s', hdecode⟩ : ∃ f s', emptyParts.decode 10 0 "x" behindWord = .ok f s' := ⟨_, _, rfl⟩
  have haligned : emptyParts.AlignedAt behindWord.cursor.position := by
    change ∀ alignment ∈ [16, 8, 32], alignment ∣ 32
    decide
  obtain ⟨hdata, hstays⟩ := (hhollow emptyParts rfl 10 behindWord s').1 0 "x" f hdecode
  have hmarked : ofTree markedEvent =
      .error (.invalid (.elementsWithoutBits "struct" ⟨0, some "e", .eventFields⟩)) := by rfl
  have hempty : ofTree emptyEvent = .error (.invalid (.eventWithoutBits "e" 0)) := by rfl
  exact ⟨⟨f, s', hdecode, hdata, hstays haligned⟩, hmarked, helements _ _ _ hmarked, hempty,
    hevents _ _ _ hempty⟩

end Example

end Metadata

end CommonTrace
