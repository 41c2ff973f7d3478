import CommonTrace.Proofs.Field.Conformance
import CommonTrace.Proofs.Field.Errors

/-!
# Decoding does not stop the program

The only read at which the program may stop is that of a text, whose bytes come from the data.  No more of them
are asked for than are allowed, so a decoding that allows less than `2 ^ 61` elements never stops the program,
whatever the type and the data are (`FieldType.reports_decodeBlock`).
-/

namespace CommonTrace

lemma DecodeError.fromReads_stops : FromReads fun error => error.stops = true where
  read error h := by
    cases error with
    | read e => exact ⟨e, rfl⟩
    | _ => cases h
  underflow position requested remaining := nofun

/-- The failures of the step are reported, in whatever state it is performed. -/
abbrev DecodeM.Reports {α : Type} (m : DecodeM α) : Prop :=
  m.Avoids fun error => error.stops = true

open DecodeM

/-! ## Parts of values -/

section Parts

variable {α : Type}

lemma DecodeM.reports_read {reading : Cursor → Except ReadError (α × Cursor)}
    (h : ∀ c, Reported (reading c)) : (DecodeM.read reading).Reports :=
  .read h

lemma DecodeM.reports_align (alignment : ℕ) : (align alignment).Reports :=
  reports_read fun c => (c.reported_align alignment).map _

lemma IntegerType.reports_read (t : IntegerType) : t.read.Reports := by
  unfold IntegerType.read
  split
  · exact (DecodeM.reports_read fun c => c.reported_readSigned t.width t.order).bind fun _ => .pure _
  · exact ((DecodeM.reports_read fun c => c.reported_readUnsigned t.width t.order).map _).bind fun _ => .pure _

lemma FloatType.reports_read (t : FloatType) : t.read.Reports :=
  (DecodeM.reports_read fun c => c.reported_readUnsigned t.width t.order).map _

lemma EnumType.reports_read (t : EnumType) : t.read.Reports :=
  t.container.reports_read.bind fun _ => .pure _

lemma reports_readString : readString.Reports :=
  (reports_read fun c => c.reported_readZeroTerminated).map _

lemma reports_readText {length : ℕ} (h : length < twoPow 61) : (readText length).Reports :=
  (reports_read fun c => c.reported_readBytes h).map _

end Parts

/-! ## Values -/

namespace FieldType

variable {limit : ℕ}

lemma reports_named (t : FieldType) (name : String) {value : DecodeM Value} (h : value.Reports) :
    (t.named name value).Reports :=
  (reports_align t.alignment).bind fun _ => h.bind fun _ => .pure _

/-- The elements of an array or a sequence of an allowed length, or the text in their place. -/
lemma reports_elements (hlimit : limit < twoPow 61) (element : FieldType) (field : String) (length : ℕ)
    {decodeElement : String → DecodeM Value} {collect : List Field → Value}
    (h : ∀ index, (decodeElement index).Reports) :
    (do
      checkLength limit field length
      if element.isCharacter then Value.text <$> readText length
      else collect <$> collectElements length fun index =>
        element.named index (decodeElement index) : DecodeM Value).Reports := by
  refine fun s => (Avoids.checkLength DecodeError.fromReads_stops limit field length s).bind fun _ s' hcheck => ?_
  obtain ⟨hle, -⟩ := of_checkLength hcheck
  split
  · exact (reports_readText (Nat.lt_of_le_of_lt hle hlimit)).map _ s'
  · exact (Avoids.collectFrom (fun _ => element.reports_named _ (h _)) 0 [] length).map _ s'

mutual

/-- **No value stops the program** where less than `2 ^ 61` elements are allowed. -/
theorem reports_decodeValue (hlimit : limit < twoPow 61) (t : FieldType) (scope : ScopeId) (name : String) :
    (t.decodeValue limit scope name).Reports := by
  match t with
  | .integer t =>
    rw [decodeValue]
    exact t.reports_read.map _
  | .float t =>
    rw [decodeValue]
    exact t.reports_read.map _
  | .string _ =>
    rw [decodeValue]
    exact reports_readString.map _
  | .enum t =>
    rw [decodeValue]
    exact t.reports_read
  | .array element length =>
    rw [decodeValue]
    exact reports_elements hlimit element name length fun index =>
      reports_decodeValue hlimit element scope index
  | .sequence element path =>
    rw [decodeValue]
    refine (Avoids.sequenceLength DecodeError.fromReads_stops scope path name).bind fun length => ?_
    exact reports_elements hlimit element name length fun index =>
      reports_decodeValue hlimit element scope index
  | .struct _ fields =>
    rw [decodeValue]
    refine (Avoids.openChild scope name).bind fun inner => ?_
    exact (reports_decodeFields hlimit fields inner).bind fun _ => .pure _
  | .variant none _ =>
    rw [decodeValue]
    exact .throw nofun
  | .variant (some tag) alternatives =>
    rw [decodeValue]
    refine (Avoids.selectedName DecodeError.fromReads_stops scope tag name).bind fun selection => ?_
    exact (reports_decodeAlternative hlimit alternatives selection scope name).map _
termination_by structural t

theorem reports_decodeFields (hlimit : limit < twoPow 61) (fields : List (String × FieldType))
    (scope : ScopeId) : (decodeFields limit fields scope).Reports := by
  match fields with
  | [] =>
    rw [decodeFields]
    exact .pure ()
  | (name, t) :: rest =>
    rw [decodeFields]
    refine (t.reports_named name (reports_decodeValue hlimit t scope name)).bind fun field => ?_
    exact (Avoids.bindField scope field).bind fun _ => reports_decodeFields hlimit rest scope
termination_by structural fields

theorem reports_decodeAlternative (hlimit : limit < twoPow 61) (alternatives : List (String × FieldType))
    (selection : String) (scope : ScopeId) (name : String) :
    (decodeAlternative limit alternatives selection scope name).Reports := by
  match alternatives with
  | [] =>
    rw [decodeAlternative]
    exact .throw nofun
  | (alternative, t) :: rest =>
    rw [decodeAlternative]
    split
    · exact t.reports_named selection (reports_decodeValue hlimit t scope selection)
    · exact reports_decodeAlternative hlimit rest selection scope name
termination_by structural alternatives

end

/-- **No block stops the program** where less than `2 ^ 61` elements are allowed. -/
theorem reports_decodeBlock (hlimit : limit < twoPow 61) (t : FieldType) (block : StaticScope) :
    (t.decodeBlock limit block).Reports := by
  refine (Avoids.openBlock block).bind fun scope => .bind ?_ fun _ => .pure _
  have hfield := t.reports_named block.name (reports_decodeValue hlimit t scope block.name)
  cases t with
  | struct least fields =>
    exact (reports_align _).bind fun _ => reports_decodeFields hlimit fields scope
  | _ => exact hfield.bind fun field => .bindField scope field

end FieldType

end CommonTrace
