import CommonTrace.Proofs.Field.FloatPowers
import CommonTrace.Proofs.Field.Stops
import CommonTrace.Proofs.Packet.Errors
import CommonTrace.Proofs.Packet.Framing
import CommonTrace.Proofs.Trace.Seek

/-!
# An index that is made

Two numbers that are computed on the way to a value are as large as the data or the metadata make them: the bits
of a text, and the exponent of the least power of two in a floating point number.  The one has to be counted in
sixty-four bits, the other in thirty-two, and a program that finds they are not enough stops.

`Metadata.ReadsInWords` says that they are enough, whatever the data are.  Then the index of every file is made,
and it frames the file (`PacketIndex.indexesFile_ofFile`).  Where texts of `2 ^ 61` bytes are allowed this is
not so: there is a file of nine bytes of which no index is made (`PacketIndex.not_forall_indexesFile`).
-/

namespace CommonTrace

/-! ## The floating point numbers of a block -/

namespace FieldType

mutual

/-- The layouts of the floating point numbers in a type. -/
def floats : FieldType → List FloatType
  | .float t => [t]
  | .integer _ | .string _ | .enum _ => []
  | .array element _ => element.floats
  | .sequence element _ => element.floats
  | .struct _ members => floatsOfMembers members
  | .variant _ alternatives => floatsOfMembers alternatives

/-- The layouts of the floating point numbers in the types of members. -/
def floatsOfMembers : List (String × FieldType) → List FloatType
  | [] => []
  | (_, t) :: rest => t.floats ++ floatsOfMembers rest

end

mutual

/-- A layout of floating point numbers in a well-formed type is well formed. -/
lemma WellFormed.of_mem_floats {clocks : Set String} (t : FieldType) (h : t.WellFormed clocks) {f : FloatType}
    (hf : f ∈ t.floats) : f.WellFormed := by
  match t with
  | .integer _ | .string _ | .enum _ => cases hf
  | .float _ =>
    cases h with
    | float h =>
      cases List.mem_singleton.mp hf
      exact h
  | .array element _ =>
    cases h with
    | array h => exact WellFormed.of_mem_floats element h hf
  | .sequence element _ =>
    cases h with
    | sequence h => exact WellFormed.of_mem_floats element h hf
  | .struct _ members =>
    cases h with
    | struct _ _ htypes => exact WellFormed.of_mem_floatsOfMembers members htypes hf
  | .variant _ alternatives =>
    cases h with
    | variant _ _ htypes => exact WellFormed.of_mem_floatsOfMembers alternatives htypes hf
termination_by structural t

lemma WellFormed.of_mem_floatsOfMembers {clocks : Set String} (members : List (String × FieldType))
    (h : ∀ member ∈ members, member.2.WellFormed clocks) {f : FloatType} (hf : f ∈ floatsOfMembers members) :
    f.WellFormed := by
  match members with
  | [] => cases hf
  | (_, t) :: rest =>
    obtain ⟨ht, hrest⟩ := List.forall_mem_cons.mp h
    rcases List.mem_append.mp hf with hf | hf
    · exact WellFormed.of_mem_floats t ht hf
    · exact WellFormed.of_mem_floatsOfMembers rest hrest hf
termination_by structural members

end

end FieldType

/-! ## Numbers that fit their words -/

/-- **What is computed while blocks are decoded fits its word.**  Less than `2 ^ 61` elements are allowed, so the
bits of a text can be counted.  The layouts of floating point numbers are well formed, and thirty-two bits of
exponent do not come with more than two places of a fraction. -/
structure Metadata.ReadsInWords (metadata : Metadata) (options : ReadOptions) : Prop where
  texts : options.lengthLimit < twoPow 61
  floats : ∀ t ∈ metadata.layouts.flatMap FieldType.floats, t.WellFormed ∧ (t.exponent = 32 → t.mantissa ≤ 3)

/-- No word of a floating point number in the metadata overflows. -/
def Metadata.PowersFit (metadata : Metadata) : Prop :=
  ∀ t ∈ metadata.layouts.flatMap FieldType.floats, ∀ raw, t.overflows raw = false

section Words

variable {metadata : Metadata} {options : ReadOptions} {limit : ℕ}

/-- Accepted metadata leaves two things to be asked for: that less than `2 ^ 61` elements are allowed, and that no
word of a floating point number overflows. -/
theorem Metadata.Accepted.readsInWords_iff (h : metadata.Accepted) :
    metadata.ReadsInWords options ↔ options.lengthLimit < twoPow 61 ∧ metadata.PowersFit := by
  have hwellFormed : ∀ t ∈ metadata.layouts.flatMap FieldType.floats, t.WellFormed := by
    intro t ht
    obtain ⟨block, hblock, ht⟩ := List.mem_flatMap.mp ht
    exact FieldType.WellFormed.of_mem_floats block (h.isLayout hblock).wellFormed ht
  constructor
  · rintro ⟨htexts, hfloats⟩
    exact ⟨htexts, fun t ht => (FloatType.overflows_eq_false_iff (hwellFormed t ht)).mpr (hfloats t ht).2⟩
  · rintro ⟨htexts, hpowers⟩
    refine ⟨htexts, fun t ht => ⟨hwellFormed t ht, ?_⟩⟩
    exact (FloatType.overflows_eq_false_iff (hwellFormed t ht)).mp (hpowers t ht)

lemma Metadata.ReadsInWords.powersFit (h : metadata.ReadsInWords options) : metadata.PowersFit :=
  fun t ht => (FloatType.overflows_eq_false_iff (h.floats t ht).1).mpr (h.floats t ht).2

/-- Any layouts are decoded without stopping the program where less than `2 ^ 61` elements are allowed. -/
lemma layoutsAvoid_stops (hlimit : limit < twoPow 61) (layouts : List FieldType) :
    LayoutsAvoid limit (fun error => error.stops = true) layouts :=
  fun t _ block => t.reports_decodeBlock hlimit block

end Words

namespace PacketIndex

/-! ## The index is made -/

lemma stops_eq_false_iff {index : PacketIndex} :
    index.stops = false ↔ ∀ error, .error error ∈ index → error.stops = false := by
  unfold stops
  rw [List.any_eq_false]
  constructor
  · intro h error hmem
    exact Bool.eq_false_iff.mpr (h _ hmem)
  · intro h entry hmem
    cases entry with
    | ok packet => exact Bool.false_ne_true
    | error error => exact Bool.eq_false_iff.mp (h error hmem)

/-- **The program does not stop while it makes an index** where less than `2 ^ 61` elements are allowed. -/
theorem stops_ofFile {options : ReadOptions} (h : options.lengthLimit < twoPow 61) (metadata : Metadata)
    (file : ByteArray) : (ofFile metadata options file).stops = false := by
  refine stops_eq_false_iff.mpr fun error hmem => ?_
  cases error with
  | decode e => exact Bool.eq_false_iff.mpr (not_fault_of_ofFile (layoutsAvoid_stops h _) hmem)
  | _ => rfl

/-- **The index of a file is made, and it frames the file**: the program does not stop, nor would it if it checked
the exponents of floating point numbers. -/
structure IndexesFile (metadata : Metadata) (options : ReadOptions) (file : ByteArray) : Prop where
  made : (ofFile metadata options file).stops = false
  powers : metadata.PowersFit
  frames : FramesFile metadata options file (ofFile metadata options file)

/-- **Packets frame their file**, whatever its bytes are: the index is made and leads from one packet to the
next. -/
theorem indexesFile_ofFile {metadata : Metadata} {options : ReadOptions} (h : metadata.ReadsInWords options)
    (file : ByteArray) : IndexesFile metadata options file where
  made := stops_ofFile h.texts metadata file
  powers := h.powersFit
  frames := framesFile_ofFile metadata options file

end PacketIndex

section Example

/-- Metadata with one stream, the packet contexts of which have the given members behind their size. -/
def Metadata.ofContext (members : List (String × FieldType)) : Metadata :=
  { Metadata.bytewise [] with
    streams := Dictionary.empty.insert 0 { StreamSchema.empty with
      packetContext := some (.struct 8 (("packet_size", .integer (.plain 8 false .little)) :: members))
      anonymousEvent := some (.named "nothing") } }

/-- Half precision. -/
def FloatType.half : FloatType :=
  { exponent := 5, mantissa := 11, order := .little, alignment := 8 }

/-- A packet with a number in its context, and a packet that claims to have no size. -/
theorem PacketIndex.indexesFile_ofFile_half :
    IndexesFile (.ofContext [("ratio", .float .half)]) {} ⟨#[24, 0, 60, 0, 0, 60]⟩ := by
  have hfloats : (Metadata.ofContext [("ratio", .float .half)]).layouts.flatMap FieldType.floats = [.half] := by
    decide +kernel
  refine indexesFile_ofFile ⟨by decide, ?_⟩ _
  rw [hfloats]
  exact List.forall_mem_singleton.mpr ⟨⟨by decide, by decide, by decide, 3, rfl⟩, by decide⟩

/-- Any number of elements that a word can give is allowed. -/
def ReadOptions.unlimited : ReadOptions :=
  { lengthLimit := twoPow 64 - 1 }

/-- The members of a structure that holds a text, the length of which is given in sixty-four bits. -/
def FieldType.countedText : List (String × FieldType) :=
  [("n", .integer (.plain 64 false .little)),
    ("text", .sequence (.integer { IntegerType.plain 8 false .little with encoding := .utf8 }) ⟨.relative 0, "n", []⟩)]

/-- **A file may stop the program** where texts of `2 ^ 61` bytes are allowed: nine bytes say that there is such a
text. -/
theorem PacketIndex.not_forall_indexesFile :
    (ofFile (.ofContext FieldType.countedText) .unlimited
        ⟨#[72, 0, 0, 0, 0, 0, 0, 0, 32]⟩).stops = true ∧
      ¬∀ metadata options file, IndexesFile metadata options file := by
  have hstops : (ofFile (.ofContext FieldType.countedText) .unlimited
      ⟨#[72, 0, 0, 0, 0, 0, 0, 0, 32]⟩).stops = true := by decide +kernel
  exact ⟨hstops, fun h => Bool.false_ne_true ((h _ _ _).made.symm.trans hstops)⟩

end Example

end CommonTrace
