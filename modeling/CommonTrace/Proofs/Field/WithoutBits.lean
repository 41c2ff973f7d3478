import CommonTrace.Proofs.Field.Occupancy

/-!
# Types without bits

`FieldType.occupiesNoBits` goes by the type alone: nothing in it is a number or a text, unless as the element
of an array of length zero.  Decoding does more than to read values, for there may be padding before each of
them, at every depth.  But where the position is a multiple of all alignments that the type gives
(`FieldType.alignments`) there is no padding before the first value; this takes no bits, and so there is none
before the next one either.

So a type without bits is hollow (`FieldType.hollow_of_occupiesNoBits`): whatever data there are and whatever
lengths and tags are found, a value of it holds no data, and decoding one stays where it is if the position is
such a multiple.
-/

namespace CommonTrace

namespace FieldType

/-! ## Alignments -/

mutual

/-- The alignments that a type gives, for itself and for all that lies in it. -/
def alignments : FieldType → List ℕ
  | .integer t => [t.alignment]
  | .float t => [t.alignment]
  | .string _ => [8]
  | .enum t => [t.container.alignment]
  | .array element _ | .sequence element _ => element.alignments
  | .struct least members => least :: alignmentsOfMembers members
  | .variant _ alternatives => alignmentsOfMembers alternatives

/-- The alignments that members or alternatives give. -/
def alignmentsOfMembers : List (String × FieldType) → List ℕ
  | [] => []
  | (_, t) :: rest => t.alignments ++ alignmentsOfMembers rest

end

/-- The position is a multiple of all alignments that the type gives. -/
def AlignedAt (t : FieldType) (position : ℕ) : Prop :=
  ∀ alignment ∈ t.alignments, alignment ∣ position

/-- The position is a multiple of all alignments that members or alternatives give. -/
def MembersAlignedAt (members : List (String × FieldType)) (position : ℕ) : Prop :=
  ∀ alignment ∈ alignmentsOfMembers members, alignment ∣ position

variable {t : FieldType} {members alternatives : List (String × FieldType)} {name : String}
  {position : ℕ}

lemma membersAlignedAt_cons : MembersAlignedAt ((name, t) :: members) position ↔
    t.AlignedAt position ∧ MembersAlignedAt members position :=
  List.forall_mem_append

lemma AlignedAt.inside {least : ℕ} (h : (FieldType.struct least members).AlignedAt position) :
    MembersAlignedAt members position :=
  (List.forall_mem_cons.mp h).2

mutual

/-- The alignment of a type is among those it gives, or it is 1. -/
theorem AlignedAt.alignment_dvd {t : FieldType} {position : ℕ} (h : t.AlignedAt position) :
    t.alignment ∣ position := by
  match t with
  | .integer _ | .float _ | .string _ | .enum _ => exact h _ (List.mem_singleton_self _)
  | .array element _ | .sequence element _ => exact AlignedAt.alignment_dvd (t := element) h
  | .struct least members =>
    obtain ⟨hleast, hmembers⟩ := List.forall_mem_cons.mp h
    exact max_rec' (· ∣ position) (max_rec' (· ∣ position) hleast (Nat.one_dvd _))
      (MembersAlignedAt.alignment_dvd hmembers)
  | .variant _ _ => exact Nat.one_dvd position
termination_by structural t

theorem MembersAlignedAt.alignment_dvd {members : List (String × FieldType)} {position : ℕ}
    (h : MembersAlignedAt members position) : alignmentOfMembers members ∣ position := by
  match members with
  | [] => exact Nat.one_dvd position
  | (_, t) :: rest =>
    obtain ⟨ht, hrest⟩ := membersAlignedAt_cons.mp h
    exact max_rec' (· ∣ position) ht.alignment_dvd (MembersAlignedAt.alignment_dvd hrest)
termination_by structural members

end

/-- There is no padding at such a position. -/
lemma AlignedAt.alignUp_eq (h : t.AlignedAt position) : alignUp t.alignment position = position :=
  alignUp_of_mod_eq_zero (Nat.mod_eq_zero_of_dvd h.alignment_dvd)

/-! ## Values -/

section Conforms

variable {limit : ℕ} {data : ByteArray} {a : Arena} {p p' : Stand} {scope : ScopeId}

/-- **A value of the type is hollow**: it holds no data, and ends where it begins if all alignments are kept
there. -/
def ConformsHollow (limit : ℕ) (data : ByteArray) (a : Arena) (t : FieldType) : Prop :=
  ∀ ⦃p p' : Stand⦄ ⦃scope : ScopeId⦄ ⦃name : String⦄ ⦃v : Value⦄,
    Conforms limit data a p t scope name v p' →
      t.dataIn a v = 0 ∧ (t.AlignedAt p.position → p'.position = p.position)

/-- There is no padding before such a value. -/
lemma ConformsHollow.field (ht : ConformsHollow limit data a t) {f : Field}
    (h : FieldConforms limit data a p t scope name f p') :
    t.dataIn a f.value = 0 ∧ (t.AlignedAt p.position → p'.position = p.position) := by
  cases h with
  | mk _ _ value =>
    obtain ⟨hdata, hstays⟩ := ht value
    refine ⟨hdata, fun haligned => ?_⟩
    have hpadding : (p.aligned t.alignment).position = p.position := haligned.alignUp_eq
    rw [hstays (by rwa [hpadding]), hpadding]

lemma ConformsHollow.each (ht : ConformsHollow limit data a t) {index : ℕ} {elements : List Field}
    (h : EachConforms limit data a p t scope index elements p') :
    (elements.map fun f => t.dataIn a f.value).sum = 0 ∧
      (t.AlignedAt p.position → p'.position = p.position) := by
  induction elements generalizing p index with
  | nil =>
    cases h
    exact ⟨rfl, fun _ => rfl⟩
  | cons f elements ih =>
    cases h with
    | cons first others =>
      obtain ⟨hdata, hfirst⟩ := ht.field first
      obtain ⟨hsum, hothers⟩ := ih others
      refine ⟨by rw [List.map_cons, List.sum_cons, hdata, hsum], fun haligned => ?_⟩
      rw [hothers (by rwa [hfirst haligned]), hfirst haligned]

/-- Elements are hollow together if each of them is, or if there are none. -/
lemma hollow_of_elementsConform {element : FieldType} {length : ℕ} {collect : List Field → Value}
    {v : Value} (hcollect : ∀ elements, (collect elements).elements = elements)
    (ht : length = 0 ∨ element.isCharacter = false ∧ ConformsHollow limit data a element)
    (h : ElementsConform limit data a p element scope length collect v p') :
    (dataIn a (.array element length) v = 0 ∧ ∀ path, dataIn a (.sequence element path) v = 0) ∧
      (element.AlignedAt p.position → p'.position = p.position) := by
  cases h with
  | text character _ bytes _ =>
    obtain rfl | ⟨hother, -⟩ := ht
    · refine ⟨⟨?_, fun path => ?_⟩, fun _ => rfl⟩
      · rw [dataIn, if_pos character, Nat.zero_min]
      · rw [dataIn, if_pos character]
        exact Nat.le_zero.mp (textData_le bytes)
    · rw [hother] at character
      cases character
  | @values _ _ _ _ _ elements character each =>
    have hother : ¬element.isCharacter = true := Bool.eq_false_iff.mp character
    have heach : (elements.map fun f => element.dataIn a f.value).sum = 0 ∧
        (element.AlignedAt p.position → p'.position = p.position) := by
      obtain hnone | ⟨-, hhollow⟩ := ht
      · obtain rfl := List.length_eq_zero_iff.mp hnone
        cases each
        exact ⟨rfl, fun _ => rfl⟩
      · exact hhollow.each each
    refine ⟨⟨?_, fun path => ?_⟩, heach.2⟩
    · rw [dataIn, if_neg hother, hcollect, heach.1]
    · rw [dataIn, if_neg hother, hcollect, heach.1]

/-- Characters take bits. -/
lemma isCharacter_of_occupiesNoBits (h : t.occupiesNoBits = true) : t.isCharacter = false := by
  cases t with
  | integer => cases h
  | _ => rfl

mutual

/-- **A value of a type without bits** is hollow. -/
theorem conformsHollow_of_occupiesNoBits (limit : ℕ) (data : ByteArray) (a : Arena) (t : FieldType)
    (ht : t.occupiesNoBits = true) : ConformsHollow limit data a t := by
  intro p p' scope name v h
  match t with
  | .integer _ | .float _ | .string _ | .enum _ => cases ht
  | .array element length =>
    have helement := conformsHollow_of_occupiesNoBits limit data a element
    rw [occupiesNoBits, Bool.or_eq_true] at ht
    cases h with
    | array _ contents =>
      have hhollow := hollow_of_elementsConform (fun _ => rfl) (ht.imp of_decide_eq_true fun hbits =>
        ⟨isCharacter_of_occupiesNoBits hbits, helement hbits⟩) contents
      exact ⟨hhollow.1.1, hhollow.2⟩
  | .sequence element path =>
    have hbits : element.occupiesNoBits = true := ht
    have helement := conformsHollow_of_occupiesNoBits limit data a element hbits
    have hother := isCharacter_of_occupiesNoBits hbits
    cases h with
    | sequence _ _ _ contents =>
      have hhollow := hollow_of_elementsConform (fun _ => rfl) (.inr ⟨hother, helement⟩) contents
      exact ⟨hhollow.1.2 path, hhollow.2⟩
  | .struct _ members =>
    cases h with
    | struct fields =>
      obtain ⟨hdata, hstays⟩ := hollow_of_fieldsConform limit data a members ht fields
      exact ⟨hdata, fun haligned => hstays haligned.inside⟩
  | .variant none _ => cases h
  | .variant (some _) alternatives =>
    cases h with
    | variant _ _ alternative conforms =>
      exact hollow_of_alternative limit data a alternatives ht alternative conforms
termination_by structural t

theorem hollow_of_fieldsConform (limit : ℕ) (data : ByteArray) (a : Arena)
    (members : List (String × FieldType)) (ht : membersOccupyNoBits members = true) {p p' : Stand}
    {scope : ScopeId} {fs : List Field} (h : FieldsConform limit data a p members scope fs p') :
    membersDataIn a members fs = 0 ∧
      (MembersAlignedAt members p.position → p'.position = p.position) := by
  match members with
  | [] =>
    cases h
    exact ⟨rfl, fun _ => rfl⟩
  | (_, t) :: rest =>
    rw [membersOccupyNoBits, Bool.and_eq_true] at ht
    cases h with
    | @cons _ p₁ _ _ _ _ _ f _ first others =>
      have hhollow := conformsHollow_of_occupiesNoBits limit data a t ht.1
      obtain ⟨hdata, hfirst⟩ := hhollow.field first
      obtain ⟨hsum, hothers⟩ := hollow_of_fieldsConform limit data a rest ht.2 others
      refine ⟨by rw [membersDataIn, hdata, hsum], fun haligned => ?_⟩
      obtain ⟨hmember, hrest⟩ := membersAlignedAt_cons.mp haligned
      have hbound : (p₁.bound scope f).position = p.position := hfirst hmember
      rw [hothers (by rwa [hbound]), hbound]
termination_by structural members

theorem hollow_of_alternative (limit : ℕ) (data : ByteArray) (a : Arena)
    (alternatives : List (String × FieldType)) (ht : membersOccupyNoBits alternatives = true)
    {p p' : Stand} {scope : ScopeId} {selection : String} {t : FieldType} {inner : Field}
    (hlookup : alternatives.lookup selection = some t)
    (h : FieldConforms limit data a p t scope selection inner p') :
    alternativeDataIn a alternatives selection inner.value = 0 ∧
      (MembersAlignedAt alternatives p.position → p'.position = p.position) := by
  match alternatives with
  | [] => cases hlookup
  | (alternative, u) :: rest =>
    rw [membersOccupyNoBits, Bool.and_eq_true] at ht
    have hhollow := conformsHollow_of_occupiesNoBits limit data a u ht.1
    by_cases hselected : selection = alternative
    · obtain rfl : u = t := by simpa [List.lookup_cons, hselected] using hlookup
      obtain ⟨hdata, hstays⟩ := hhollow.field h
      rw [alternativeDataIn, if_pos hselected]
      exact ⟨hdata, fun haligned => hstays (membersAlignedAt_cons.mp haligned).1⟩
    · rw [List.lookup_cons, beq_false_of_ne hselected] at hlookup
      obtain ⟨hdata, hstays⟩ := hollow_of_alternative limit data a rest ht.2 hlookup h
      rw [alternativeDataIn, if_neg hselected]
      exact ⟨hdata, fun haligned => hstays (membersAlignedAt_cons.mp haligned).2⟩
termination_by structural alternatives

end

end Conforms

/-! ## Decoding -/

/-- **The type is hollow.**  If a value of it can be decoded there are no data in it, and no bit is taken if
the position is a multiple of all alignments that the type gives; and likewise with a block. -/
def Hollow (t : FieldType) : Prop :=
  ∀ (limit : ℕ) (s s' : DecodeState),
    (∀ scope name f, t.decode limit scope name s = .ok f s' →
      t.dataIn s'.scopes.arena f.value = 0 ∧
        (t.AlignedAt s.cursor.position → s'.cursor.position = s.cursor.position)) ∧
    ∀ block scope, t.decodeBlock limit block s = .ok scope s' →
      (t.isStruct = true → t.dataIn s'.scopes.arena (.struct scope) = 0) ∧
        (t.AlignedAt s.cursor.position → s'.cursor.position = s.cursor.position)

/-- **A type without bits is hollow.** -/
theorem hollow_of_occupiesNoBits (ht : t.occupiesNoBits = true) : t.Hollow := by
  intro limit s s'
  have hvalue : ∀ scope name f s₁ s₂, t.decode limit scope name s₁ = .ok f s₂ →
      t.dataIn s₂.scopes.arena f.value = 0 ∧
        (t.AlignedAt s₁.cursor.position → s₂.cursor.position = s₁.cursor.position) := by
    intro scope name f s₁ s₂ hdecode
    have hconforms := conforms_of_decode hdecode (a := s₂.scopes.arena) fun _ _ _ => rfl
    exact (conformsHollow_of_occupiesNoBits limit _ _ t ht).field hconforms
  refine ⟨fun scope name f hdecode => hvalue scope name f s s' hdecode, fun block scope hblock => ?_⟩
  cases t with
  | struct least members =>
    have hconforms := fieldsConform_of_decodeBlock hblock (a := s'.scopes.arena) fun _ _ _ => rfl
    obtain ⟨hdata, hstays⟩ := hollow_of_fieldsConform _ _ _ members ht hconforms
    refine ⟨fun _ => hdata, fun haligned => ?_⟩
    rw [haligned.alignUp_eq] at hstays
    exact hstays haligned.inside
  | _ =>
    refine ⟨nofun, ?_⟩
    obtain ⟨-, hcontents⟩ := of_decodeBlock_ok hblock
    obtain ⟨f, s₁, hdecode, hbind⟩ := DecodeM.ok_of_bind hcontents
    cases hbind
    exact (hvalue _ _ f _ s₁ hdecode).2

end FieldType

end CommonTrace
