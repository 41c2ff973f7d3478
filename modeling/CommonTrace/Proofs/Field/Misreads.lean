import CommonTrace.Proofs.Field.Conformance
import CommonTrace.Proofs.Field.Errors
import CommonTrace.Proofs.Schema.WellFormed

/-!
# Decoding does not misread

A read fails if too few bits are left, and that is the fault of the data.  It also fails if it is made at a
position or with a width that it is not made for; such a read is a misread (`ReadError.IsMisuse`).

A well-formed type is decoded without misreads, in whatever state (`FieldType.safe_decode`).  The widths of its
numbers are right from the start.  Bytes are read for texts only, and a text is aligned to a multiple of eight
bits; so what is known about the position of a value is its alignment, which the padding before the value
establishes (`FieldType.safe_named`), and nothing has to be known about the values before.
-/

namespace CommonTrace

/-- The read was not made for the position or the width. -/
inductive ReadError.IsMisuse : ReadError → Prop where
  | unaligned (position : ℕ) : IsMisuse (.unaligned position)
  | invalidWidth (width : ℕ) : IsMisuse (.invalidWidth width)

/-- The decoding failed for a misread. -/
inductive DecodeError.IsMisread : DecodeError → Prop where
  | read {error : ReadError} (h : error.IsMisuse) : IsMisread (.read error)

/-! ## Steps of a decoding -/

lemma DecodeError.fromReads_isMisread : FromReads IsMisread where
  read := by
    rintro _ ⟨hmisuse⟩
    exact ⟨_, rfl⟩
  underflow position requested remaining := by
    rintro ⟨hmisuse⟩
    cases hmisuse

namespace DecodeM

variable {α : Type} {s : DecodeState}

/-- From this state, the step does not fail for a misread. -/
abbrev SafeAt (m : DecodeM α) (s : DecodeState) : Prop :=
  m.AvoidsAt DecodeError.IsMisread s

/-- The step does not fail for a misread, from whatever state. -/
abbrev Safe (m : DecodeM α) : Prop :=
  m.Avoids DecodeError.IsMisread

lemma safeAt_read {reading : Cursor → Except ReadError (α × Cursor)}
    (h : ReadAvoids ReadError.IsMisuse (reading s.cursor)) : (DecodeM.read reading).SafeAt s := by
  refine .read fun error hreading => ?_
  rintro ⟨hmisuse⟩
  exact h error hreading hmisuse

lemma safe_align (alignment : ℕ) : (align alignment).Safe :=
  fun _ => safeAt_read ((Cursor.avoids_align nofun alignment).map _)

lemma safe_readUnsigned {width : ℕ} (hpositive : 0 < width) (hwidth : width ≤ 64) (order : ByteOrder) :
    (DecodeM.read fun cursor => cursor.readUnsigned width order).Safe := by
  refine fun _ => safeAt_read (Cursor.avoids_readUnsigned nofun ?_)
  omega

lemma safe_readSigned {width : ℕ} (hpositive : 0 < width) (hwidth : width ≤ 64) (order : ByteOrder) :
    (DecodeM.read fun cursor => cursor.readSigned width order).Safe := by
  refine fun _ => safeAt_read (Cursor.avoids_readSigned nofun ?_)
  omega

end DecodeM

/-! ## Parts of values -/

section Parts

open DecodeM

variable {s : DecodeState}

lemma IntegerType.safe_read {t : IntegerType} (h : t.WellFormed) : t.read.Safe := by
  unfold IntegerType.read
  split
  · exact (safe_readSigned h.width_pos h.width_le t.order).bind fun _ => Avoids.pure _
  · exact ((safe_readUnsigned h.width_pos h.width_le t.order).map _).bind fun _ => Avoids.pure _

lemma FloatType.safe_read {t : FloatType} (h : t.WellFormed) : t.read.Safe := by
  have hpositive : 0 < t.width := Nat.add_pos_left (Nat.lt_of_lt_of_le (by decide) h.exponent) _
  exact (safe_readUnsigned hpositive h.width_le t.order).map _

lemma EnumType.safe_read {t : EnumType} (h : t.container.WellFormed) : t.read.Safe :=
  (IntegerType.safe_read h).bind fun _ => Avoids.pure _

lemma safeAt_readString (hbyte : s.cursor.position % 8 = 0) : readString.SafeAt s := by
  refine (safeAt_read (Cursor.avoids_readZeroTerminated nofun fun hunaligned => ?_)).map _
  exact absurd hbyte hunaligned

lemma safeAt_readText (hbyte : s.cursor.position % 8 = 0) (length : ℕ) : (readText length).SafeAt s := by
  refine (safeAt_read (Cursor.avoids_readBytes (fun hunaligned => ?_) nofun)).map _
  exact absurd hbyte hunaligned

end Parts

/-! ## Values -/

namespace FieldType

open DecodeM

variable {clocks : Set String} {s : DecodeState}

/-- A value is safe if it is so at the multiples of its alignment. -/
lemma safe_named {t : FieldType} {name : String} {value : DecodeM Value} (ht : 0 < t.alignment)
    (h : ∀ s, s.cursor.position % t.alignment = 0 → value.SafeAt s) : (t.named name value).Safe := by
  intro s
  refine (safe_align t.alignment s).bind fun _ s₁ halign => ?_
  have hposition : s₁.cursor.position % t.alignment = 0 := by
    rw [(movedTo_of_align halign).cursor.position]
    exact alignUp_mod t.alignment s.cursor.position ht
  exact (h s₁ hposition).bind fun _ s₂ _ => Avoids.pure _ s₂

/-- Whether values are read as whole bytes: strings, and texts in the place of characters. -/
def isBytes : FieldType → Bool
  | .string _ => true
  | .array element _ | .sequence element _ => element.isCharacter
  | _ => false

lemma dvd_alignment_of_isCharacter (element : FieldType) (h : element.isCharacter = true) :
    8 ∣ element.alignment := by
  cases element with
  | integer t =>
    simp only [isCharacter, IntegerType.isCharacter, Bool.and_eq_true, decide_eq_true_eq] at h
    exact Nat.dvd_of_mod_eq_zero h.2
  | _ => cases h

/-- What is read as whole bytes is aligned to them. -/
lemma position_mod_eight_of_isBytes {t : FieldType} (h : t.isBytes = true) {position : ℕ}
    (hposition : position % t.alignment = 0) : position % 8 = 0 := by
  have hbytes : 8 ∣ t.alignment := by
    cases t with
    | string => exact Nat.dvd_refl 8
    | array element _ | sequence element _ => exact dvd_alignment_of_isCharacter element h
    | _ => cases h
  exact Nat.mod_eq_zero_of_dvd (Nat.dvd_trans hbytes (Nat.dvd_of_mod_eq_zero hposition))

/-- The elements of an array or a sequence, or the text in their place. -/
lemma safeAt_elements {t element : FieldType} {decodeElement : String → DecodeM Field}
    {collect : List Field → Value} (ht : t.isBytes = element.isCharacter)
    (h : ∀ index, (decodeElement index).Safe) (hposition : s.cursor.position % t.alignment = 0)
    (length : ℕ) :
    (if element.isCharacter then Value.text <$> readText length
      else collect <$> collectElements length decodeElement : DecodeM Value).SafeAt s := by
  split
  · rename_i hcharacter
    have hbyte := position_mod_eight_of_isBytes (ht.trans hcharacter) hposition
    exact (safeAt_readText hbyte length).map _
  · exact (Avoids.collectFrom (fun index => h (toString index)) 0 [] length s).map _

mutual

/-- **At a multiple of its alignment, a value is decoded without misreads.** -/
theorem safeAt_decodeValue (limit : ℕ) (t : FieldType) (scope : ScopeId) (name : String)
    (h : t.WellFormed clocks) {s : DecodeState} (hposition : s.cursor.position % t.alignment = 0) :
    (t.decodeValue limit scope name).SafeAt s := by
  match t with
  | .integer t =>
    cases h with
    | integer h =>
      rw [decodeValue]
      exact (IntegerType.safe_read h s).map _
  | .float t =>
    cases h with
    | float h =>
      rw [decodeValue]
      exact (FloatType.safe_read h s).map _
  | .string _ =>
    rw [decodeValue]
    exact (safeAt_readString hposition).map _
  | .enum t =>
    cases h with
    | enum h =>
      rw [decodeValue]
      exact EnumType.safe_read h s
  | .array element length =>
    cases h with
    | array h =>
      rw [decodeValue]
      refine (Avoids.checkLength DecodeError.fromReads_isMisread limit name length s).bind fun _ s₁ hcheck => ?_
      obtain ⟨-, rfl⟩ := of_checkLength hcheck
      refine safeAt_elements rfl (fun index => ?_) hposition length
      exact safe_named h.isAlignment.pos fun s hs => safeAt_decodeValue limit element scope index h hs
  | .sequence element path =>
    cases h with
    | sequence h =>
      rw [decodeValue]
      refine (Avoids.sequenceLength DecodeError.fromReads_isMisread scope path name s).bind fun length s₁ hlength => ?_
      obtain ⟨-, -, -, rfl⟩ := of_sequenceLength hlength
      refine (Avoids.checkLength DecodeError.fromReads_isMisread limit name length s₁).bind fun _ s₂ hcheck => ?_
      obtain ⟨-, rfl⟩ := of_checkLength hcheck
      refine safeAt_elements rfl (fun index => ?_) hposition length
      exact safe_named h.isAlignment.pos fun s hs => safeAt_decodeValue limit element scope index h hs
  | .struct least fields =>
    cases h with
    | struct _ _ htypes =>
      rw [decodeValue]
      refine (Avoids.openChild scope name s).bind fun inner s₁ _ => ?_
      refine (safe_decodeFields limit fields inner htypes s₁).bind fun _ s₂ _ => ?_
      exact Avoids.pure _ s₂
  | .variant none _ =>
    rw [decodeValue]
    have hthrow : (throw (.path (.untagged name)) : DecodeM Value).Safe := .throw nofun
    exact hthrow s
  | .variant (some tag) alternatives =>
    cases h with
    | variant _ _ htypes =>
      rw [decodeValue]
      refine (Avoids.selectedName DecodeError.fromReads_isMisread scope tag name s).bind fun selection s₁ _ => ?_
      exact (safe_decodeAlternative limit alternatives selection scope name htypes s₁).map _
termination_by structural t

theorem safe_decodeFields (limit : ℕ) (fields : List (String × FieldType)) (scope : ScopeId)
    (h : ∀ field ∈ fields, field.2.WellFormed clocks) : (decodeFields limit fields scope).Safe := by
  match fields with
  | [] =>
    rw [decodeFields]
    exact Avoids.pure ()
  | (name, t) :: rest =>
    obtain ⟨ht, hrest⟩ := List.forall_mem_cons.mp h
    rw [decodeFields]
    refine Avoids.bind ?_ fun field => (Avoids.bindField scope field).bind fun _ => ?_
    · exact safe_named ht.isAlignment.pos fun s hs => safeAt_decodeValue limit t scope name ht hs
    · exact safe_decodeFields limit rest scope hrest
termination_by structural fields

theorem safe_decodeAlternative (limit : ℕ) (alternatives : List (String × FieldType))
    (selection : String) (scope : ScopeId) (name : String)
    (h : ∀ alternative ∈ alternatives, alternative.2.WellFormed clocks) :
    (decodeAlternative limit alternatives selection scope name).Safe := by
  match alternatives with
  | [] =>
    rw [decodeAlternative]
    exact .throw nofun
  | (alternative, t) :: rest =>
    obtain ⟨ht, hrest⟩ := List.forall_mem_cons.mp h
    rw [decodeAlternative]
    split
    · exact safe_named ht.isAlignment.pos fun s hs => safeAt_decodeValue limit t scope selection ht hs
    · exact safe_decodeAlternative limit rest selection scope name hrest
termination_by structural alternatives

end

/-- **A well-formed type is decoded without misreads, in whatever state.** -/
theorem safe_decode (limit : ℕ) {t : FieldType} (h : t.WellFormed clocks) (scope : ScopeId)
    (name : String) : (t.decode limit scope name).Safe :=
  safe_named h.isAlignment.pos fun _ hs => safeAt_decodeValue limit t scope name h hs

lemma safe_decodeContents (limit : ℕ) {t : FieldType} (h : t.WellFormed clocks) (block : StaticScope)
    (scope : ScopeId) : (t.decodeContents limit block scope).Safe := by
  cases t with
  | struct least fields =>
    cases h with
    | struct _ _ htypes =>
      exact (safe_align _).bind fun _ => safe_decodeFields limit fields scope htypes
  | _ => exact (safe_decode limit h scope block.name).bind fun _ => Avoids.bindField scope _

/-- A block with a well-formed layout is decoded without misreads, in whatever state. -/
theorem safe_decodeBlock (limit : ℕ) {t : FieldType} (h : t.WellFormed clocks) (block : StaticScope) :
    (t.decodeBlock limit block).Safe := by
  refine (Avoids.openBlock block).bind fun scope => ?_
  exact (safe_decodeContents limit h block scope).bind fun _ => Avoids.pure scope

end FieldType

end CommonTrace
