import CommonTrace.Proofs.Field.Misreads
import CommonTrace.Proofs.Schema.Parts
import CommonTrace.Proofs.Trace.Errors

/-!
# Reading a trace meets no misread

Where a trace is read by metadata that has been accepted, neither the index of a file nor a reader reports a
misread, whatever the files hold (`Metadata.reads_of_ofTree`).  The layouts of accepted metadata are well formed,
so their blocks are decoded without misreads wherever they start, and nothing else is decoded.
-/

namespace CommonTrace

/-- Header or context of a packet failed for a misread. -/
inductive FormatError.IsMisread : FormatError → Prop where
  | decode {error : DecodeError} (h : error.IsMisread) : IsMisread (.decode error)

/-- A packet could not be read to its end for a misread. -/
inductive ReadFault.IsMisread : ReadFault → Prop where
  | format {error : FormatError} (h : error.IsMisread) : IsMisread (.format error)
  | decode {error : DecodeError} (h : error.IsMisread) : IsMisread (.decode error)

/-- A fault is a misread if the error of a decoding is one from which it comes. -/
lemma ReadFault.not_isMisread {fault : ReadFault} (h : ∀ e ∈ fault.decodeError?, ¬e.IsMisread) :
    ¬fault.IsMisread := by
  rintro (⟨⟨hmisread⟩⟩ | ⟨hmisread⟩) <;> exact h _ rfl hmisread

/-- The layouts of accepted metadata are decoded without misreads. -/
lemma Metadata.Accepted.layoutsAvoid {metadata : Metadata} (h : metadata.Accepted) (limit : ℕ) :
    LayoutsAvoid limit DecodeError.IsMisread metadata.layouts :=
  fun _ hblock => FieldType.safe_decodeBlock limit (h.isLayout hblock).wellFormed

/-! ## Reading by accepted metadata -/

/-- **A type is read as it is meant to be**: numbers with a width that they can have, bytes from the start of a
byte, and in whatever state without misreads. -/
structure FieldType.ReadRightly (t : FieldType) : Prop where
  integer : ∀ i ∈ t.integer?, 1 ≤ i.width ∧ i.width ≤ 64
  float : ∀ f, t = .float f → 1 ≤ f.width ∧ f.width ≤ 64
  bytes : t.isBytes = true → ∀ c c' : Cursor, c.align t.alignment = .ok c' → c'.position % 8 = 0
  decode : ∀ limit scope name, (t.decode limit scope name).Safe

lemma FieldType.WellFormed.readRightly {clocks : Set String} {t : FieldType} (h : t.WellFormed clocks) :
    t.ReadRightly where
  integer i hi := ⟨(h.integer? hi).1.width_pos, (h.integer? hi).1.width_le⟩
  float := by
    rintro f rfl
    cases h with
    | float h => exact ⟨Nat.le_add_right_of_le (Nat.le_of_succ_le h.exponent), h.width_le⟩
  bytes hbytes c c' halign := by
    refine position_mod_eight_of_isBytes hbytes ?_
    rw [(Cursor.of_align_ok halign).position]
    exact alignUp_mod t.alignment c.position h.isAlignment.pos
  decode limit scope name := safe_decode limit h scope name

/-- **Reading a trace meets no misread.**  Each declaration in accepted metadata is read as it is meant to be.
So the index of a file reports no misread, and neither does a reader of a trace, whatever has been done with it
before. -/
theorem Metadata.reads_of_ofTree {root : Tsdl.Node} {metadata : Metadata}
    (h : Metadata.ofTree root = .ok metadata) (options : ReadOptions) :
    (∀ block ∈ metadata.layouts, ∀ t, block.Reaches t → t.ReadRightly) ∧
      (∀ (file : ByteArray) (error : FormatError),
        .error error ∈ PacketIndex.ofFile metadata options file → ¬error.IsMisread) ∧
      ∀ (place : String) (files : List (String × ByteArray)) (trace : Trace),
        Trace.ofFiles place metadata files options = .ok trace →
        ∀ r, TraceReader.Reachable trace r →
          ∀ error, r.advance.1 = .error error → ¬error.fault.IsMisread := by
  have haccepted := (accepted_of_ofTree h).1
  refine ⟨fun block hblock t hreach => ?_, fun file error => ?_, ?_⟩
  · have hlayout := haccepted.isLayout hblock
    exact (hlayout.wellFormed.of_reaches hlayout.isTagged hreach).1.readRightly
  · rintro hmem ⟨hmisread⟩
    exact PacketIndex.not_fault_of_ofFile (haccepted.layoutsAvoid _) hmem hmisread
  · intro place files trace htrace r hr error herror
    obtain ⟨rfl, hlocated⟩ := Trace.located_of_ofFiles htrace
    obtain ⟨file, hfile, hmem⟩ := hr.exists_of_error herror
    have hlayouts := haccepted.layoutsAvoid trace.options.lengthLimit
    refine ReadFault.not_isMisread ?_
    exact Trace.not_fault_of_fileEvents DecodeError.fromReads_isMisread hlayouts hlocated hfile hmem

section Example

open Tsdl

/-- A tree with one kind of event, in the payload of which a text follows three bits. -/
def unevenText : Node :=
  .block .root
    [.block .event
      [.value "name" (.word .unaryString "e"),
        .type "fields" (.struct
          [.member (.integer "3") "flags" [], .member (.block .string []) "text" []])]]

/-- Whether some layout of the metadata has a text as its second member. -/
def holdsText (metadata : Metadata) : Bool :=
  metadata.layouts.any fun block => match block with
    | .struct _ (_ :: (_, t) :: _) => t.isBytes
    | _ => false

theorem reads_of_ofTree_unevenText : ∃ metadata block t,
    Metadata.ofTree unevenText = .ok metadata ∧ block ∈ metadata.layouts ∧ block.Reaches t ∧
      t.isBytes = true ∧ t.ReadRightly ∧
      ∀ file error, .error error ∈ PacketIndex.ofFile metadata {} file → ¬error.IsMisread := by
  have haccepted : (Metadata.ofTree unevenText).toOption.any holdsText = true := by decide +kernel
  obtain ⟨metadata, hsome, hholds⟩ := (Option.any_eq_true _ _).mp haccepted
  have hmetadata := eq_ok_of_toOption hsome
  obtain ⟨block, hblock, hsecond⟩ := List.any_eq_true.mp hholds
  split at hsecond
  · rename_i least first name t members
    have hreach : (FieldType.struct least (first :: (name, t) :: members)).Reaches t :=
      .single (.member (List.mem_cons_of_mem _ List.mem_cons_self))
    obtain ⟨hright, hindex, -⟩ := Metadata.reads_of_ofTree hmetadata {}
    exact ⟨metadata, _, t, hmetadata, hblock, hreach, hsecond, hright _ hblock t hreach, hindex⟩
  · cases hsecond

end Example

end CommonTrace
