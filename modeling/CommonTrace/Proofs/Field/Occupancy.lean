import CommonTrace.Proofs.Field.Navigation
import Mathlib.Algebra.Order.BigOperators.Group.List
import Mathlib.Algebra.Order.Group.Nat

/-!
# What decoding takes and what it gives

A number, an enumeration, a string and a text in the place of characters take up bits.  These are the data that a
value holds (`FieldType.dataIn`), and every one of them moves the cursor by a bit at least.  So nothing can
be got out of a packet for which there are no bits in it: a value holds no more data than it has taken bits,
and at each depth of nested arrays no more elements hold data than that.  This is
`Metadata.paid_of_decode`, by recursion on the rules by which a value conforms to its type.

An element that holds no data is another matter.  Metadata with elements that never hold any is refused,
but a sequence of length zero, or an alternative without fields, can stand beside others that do.  As
elements they are counted by the limit on lengths alone, and there may be more of them than bits.  That
cannot happen with elements all of which hold data whatever they are (`FieldType.takesBits`).
-/

namespace CommonTrace

/-- The elements of an array or a sequence. -/
def Value.elements : Value → List Field
  | .array elements => elements
  | .sequence elements => elements
  | _ => []

/-- The fields of a structure. -/
def Value.members (a : Arena) : Value → List Field
  | .struct scope => a.fields scope
  | _ => []

/-- One for a text that is not empty. -/
def Value.textData : Value → ℕ
  | .text s => if s = "" then 0 else 1
  | _ => 0

namespace FieldType

/-- The type of the elements. -/
def element? : FieldType → Option FieldType
  | .array element _ => some element
  | .sequence element _ => some element
  | _ => none

/-! ## Data -/

mutual

/-- **The number of data in a value**: of its numbers, enumerations and strings, and of the texts in the place of
characters.  Such a text counts once, however long it is: that of an array if the array has elements, that of a
sequence if the text is not empty.  A text ends before its first zero byte, so it may be empty in spite of its
bytes. -/
def dataIn (a : Arena) (t : FieldType) (v : Value) : ℕ :=
  match t with
  | .integer _ | .float _ | .string _ | .enum _ => 1
  | .array element length =>
    if element.isCharacter then min length 1
    else (v.elements.map fun f => dataIn a element f.value).sum
  | .sequence element _ =>
    if element.isCharacter then v.textData
    else (v.elements.map fun f => dataIn a element f.value).sum
  | .struct _ members => membersDataIn a members (v.members a)
  | .variant _ alternatives =>
    match v with
    | .variant selection inner => alternativeDataIn a alternatives selection inner.value
    | _ => 0
termination_by structural t

/-- The number of data in the fields of a structure. -/
def membersDataIn (a : Arena) (members : List (String × FieldType)) (fs : List Field) : ℕ :=
  match members, fs with
  | (_, t) :: rest, f :: fs => dataIn a t f.value + membersDataIn a rest fs
  | _, _ => 0
termination_by structural members

/-- The number of data in a value of the selected alternative. -/
def alternativeDataIn (a : Arena) (alternatives : List (String × FieldType)) (selection : String)
    (v : Value) : ℕ :=
  match alternatives with
  | [] => 0
  | (alternative, t) :: rest =>
    if selection = alternative then dataIn a t v else alternativeDataIn a rest selection v
termination_by structural alternatives

end

/-- Whether an element holds data. -/
def holdsData (a : Arena) (t : FieldType) (f : Field) : Bool :=
  0 < t.dataIn a f.value

mutual

/-- **The number of elements that hold data**, of those with as many arrays and sequences around the one
they are elements of as `depth` says. -/
def elementsAt (a : Arena) (depth : ℕ) (t : FieldType) (v : Value) : ℕ :=
  match t with
  | .integer _ | .float _ | .string _ | .enum _ => 0
  | .array element _ | .sequence element _ =>
    if element.isCharacter then 0
    else
      match depth with
      | 0 => v.elements.countP (holdsData a element)
      | depth + 1 => (v.elements.map fun f => elementsAt a depth element f.value).sum
  | .struct _ members => membersElementsAt a depth members (v.members a)
  | .variant _ alternatives =>
    match v with
    | .variant selection inner => alternativeElementsAt a depth alternatives selection inner.value
    | _ => 0
termination_by structural t

/-- The number of elements that hold data in the fields of a structure. -/
def membersElementsAt (a : Arena) (depth : ℕ) (members : List (String × FieldType))
    (fs : List Field) : ℕ :=
  match members, fs with
  | (_, t) :: rest, f :: fs => elementsAt a depth t f.value + membersElementsAt a depth rest fs
  | _, _ => 0
termination_by structural members

/-- The number of elements that hold data in a value of the selected alternative. -/
def alternativeElementsAt (a : Arena) (depth : ℕ) (alternatives : List (String × FieldType))
    (selection : String) (v : Value) : ℕ :=
  match alternatives with
  | [] => 0
  | (alternative, t) :: rest =>
    if selection = alternative then elementsAt a depth t v
    else alternativeElementsAt a depth rest selection v
termination_by structural alternatives

end

mutual

/-- **Whether every value holds data**, whatever the lengths and the tags are that are met. -/
def takesBits : FieldType → Bool
  | .integer _ | .float _ | .string _ | .enum _ => true
  | .array element length => length ≠ 0 && element.takesBits
  | .sequence _ _ => false
  | .struct _ members => someMemberTakesBits members
  | .variant _ alternatives => allAlternativesTakeBits alternatives

/-- Whether every value of some member holds data. -/
def someMemberTakesBits : List (String × FieldType) → Bool
  | [] => false
  | (_, t) :: rest => t.takesBits || someMemberTakesBits rest

/-- Whether every value of each alternative holds data. -/
def allAlternativesTakeBits : List (String × FieldType) → Bool
  | [] => true
  | (_, t) :: rest => t.takesBits && allAlternativesTakeBits rest

end

section Counting

variable {a : Arena} {depth : ℕ}

lemma alternativeDataIn_of_lookup {alternatives : List (String × FieldType)} {selection : String}
    {t : FieldType} (h : alternatives.lookup selection = some t) (v : Value) :
    alternativeDataIn a alternatives selection v = t.dataIn a v := by
  induction alternatives with
  | nil => cases h
  | cons alternative alternatives ih =>
    by_cases hname : selection = alternative.1
    · subst hname
      rw [List.lookup_cons_self] at h
      rw [alternativeDataIn, if_pos rfl, Option.some.inj h]
    · rw [List.lookup_cons, beq_false_of_ne hname] at h
      rw [alternativeDataIn, if_neg hname]
      exact ih h

lemma takesBits_of_lookup {alternatives : List (String × FieldType)} {selection : String}
    {t : FieldType} (h : alternatives.lookup selection = some t)
    (hall : allAlternativesTakeBits alternatives = true) : t.takesBits = true := by
  induction alternatives with
  | nil => cases h
  | cons alternative alternatives ih =>
    rw [allAlternativesTakeBits, Bool.and_eq_true] at hall
    by_cases hname : selection = alternative.1
    · subst hname
      rw [List.lookup_cons_self] at h
      rw [← Option.some.inj h]
      exact hall.1
    · rw [List.lookup_cons, beq_false_of_ne hname] at h
      exact ih h hall.2

lemma countP_pos_le_sum {α : Type} (weight : α → ℕ) (items : List α) :
    items.countP (fun item => decide (0 < weight item)) ≤ (items.map weight).sum := by
  induction items with
  | nil => exact Nat.le_refl 0
  | cons item items ih =>
    rw [List.countP_cons, List.map_cons, List.sum_cons]
    split
    · rename_i hpositive
      have hweight := of_decide_eq_true hpositive
      omega
    · omega

mutual

/-- Elements of one depth that hold data hold data of their own. -/
theorem elementsAt_le (a : Arena) (depth : ℕ) (t : FieldType) (v : Value) :
    t.elementsAt a depth v ≤ t.dataIn a v := by
  match t with
  | .integer _ | .float _ | .string _ | .enum _ => exact Nat.zero_le _
  | .array element _ | .sequence element _ =>
    cases depth with
    | zero =>
      rw [elementsAt, dataIn]
      split
      · exact Nat.zero_le _
      · exact countP_pos_le_sum _ _
    | succ depth =>
      rw [elementsAt, dataIn]
      split
      · exact Nat.zero_le _
      · exact List.sum_le_sum fun f _ => elementsAt_le a depth element f.value
  | .struct _ members => exact membersElementsAt_le a depth members (v.members a)
  | .variant _ alternatives =>
    cases v with
    | variant selection inner =>
      exact alternativeElementsAt_le a depth alternatives selection inner.value
    | _ => exact Nat.zero_le _
termination_by structural t

theorem membersElementsAt_le (a : Arena) (depth : ℕ) (members : List (String × FieldType))
    (fs : List Field) : membersElementsAt a depth members fs ≤ membersDataIn a members fs := by
  match members, fs with
  | [], _ | _ :: _, [] => exact Nat.zero_le _
  | (_, t) :: rest, f :: fs =>
    exact Nat.add_le_add (elementsAt_le a depth t f.value) (membersElementsAt_le a depth rest fs)
termination_by structural members

theorem alternativeElementsAt_le (a : Arena) (depth : ℕ) (alternatives : List (String × FieldType))
    (selection : String) (v : Value) :
    alternativeElementsAt a depth alternatives selection v ≤ alternativeDataIn a alternatives selection v := by
  match alternatives with
  | [] => exact Nat.zero_le _
  | (alternative, t) :: rest =>
    rw [alternativeElementsAt, alternativeDataIn]
    split
    · exact elementsAt_le a depth t v
    · exact alternativeElementsAt_le a depth rest selection v
termination_by structural alternatives

end

end Counting

/-! ## Data and bits -/

section Conforms

variable {limit : ℕ} {data : ByteArray} {a : Arena} {clocks : Set String}

/-- Elements that are read as a text of no bytes are an empty text. -/
lemma textData_le {length : ℕ} {text : String} {position : ℕ}
    (h : text = textOfBytes (Cursor.bytesBetween data (position / 8) (position / 8 + length))) :
    (Value.text text).textData ≤ min length 1 := by
  unfold Value.textData
  dsimp only
  split
  · exact Nat.zero_le _
  · rename_i hnonempty
    have hlength : length ≠ 0 := by
      rintro rfl
      rw [Nat.add_zero, Cursor.bytesBetween_eq_nil (Nat.le_refl _)] at h
      exact hnonempty h
    omega

mutual

/-- **A value takes at least as many bits as it holds data.** -/
theorem dataIn_le {p p' : Stand} {t : FieldType} {scope : ScopeId} {name : String} {v : Value}
    (h : Conforms limit data a p t scope name v p') (ht : t.WellFormed clocks) :
    p.position + t.dataIn a v ≤ p'.position :=
  -- By recursion on the rules by which the value conforms: these know the lengths and the selections.
  match h with
  | .integer _ => by
    cases ht with
    | integer hwell => exact Nat.add_le_add_left hwell.width_pos _
  | .float => by
    cases ht with
    | float hwell =>
      have hexponent := hwell.exponent
      refine Nat.add_le_add_left ?_ _
      change 1 ≤ _ + _
      omega
  | .string _ => Nat.add_le_add_left (show 1 ≤ _ by omega) _
  | .enum _ => by
    cases ht with
    | enum hcontainer => exact Nat.add_le_add_left hcontainer.width_pos _
  | .array _ contents => by
    cases ht with
    | array helement => exact (elementsDataIn_le contents helement fun _ => rfl).1
  | .sequence _ _ _ contents => by
    cases ht with
    | sequence helement => exact (elementsDataIn_le contents helement fun _ => rfl).2 _
  | .struct fields => by
    cases ht with
    | struct _ _ htypes =>
      have hfields := membersDataIn_le fields htypes
      exact hfields
  | .variant _ _ alternative conforms => by
    cases ht with
    | variant _ _ htypes =>
      have hinner := fieldDataIn_le conforms (htypes _ (mem_of_lookup alternative))
      rwa [dataIn, alternativeDataIn_of_lookup alternative]
termination_by structural h

theorem elementsDataIn_le {p p' : Stand} {element : FieldType} {scope : ScopeId} {length : ℕ}
    {collect : List Field → Value} {v : Value}
    (h : ElementsConform limit data a p element scope length collect v p') (ht : element.WellFormed clocks)
    (hcollect : ∀ elements, (collect elements).elements = elements) :
    p.position + dataIn a (.array element length) v ≤ p'.position ∧
      ∀ path, p.position + dataIn a (.sequence element path) v ≤ p'.position :=
  match h with
  | .text character _ bytes _ => by
    have htext := textData_le bytes
    rw [dataIn, if_pos character, Stand.moved]
    refine ⟨by dsimp only; omega, fun path => ?_⟩
    rw [dataIn, if_pos character]
    dsimp only
    omega
  | .values character each => by
    have hsum := eachDataIn_le each ht
    have hother : ¬element.isCharacter = true := Bool.eq_false_iff.mp character
    rw [dataIn, if_neg hother, hcollect]
    refine ⟨hsum, fun path => ?_⟩
    rwa [dataIn, if_neg hother, hcollect]
termination_by structural h

theorem eachDataIn_le {p p' : Stand} {element : FieldType} {scope : ScopeId} {index : ℕ}
    {elements : List Field} (h : EachConforms limit data a p element scope index elements p')
    (ht : element.WellFormed clocks) :
    p.position + (elements.map fun f => element.dataIn a f.value).sum ≤ p'.position :=
  match h with
  | .nil => Nat.le_refl _
  | .cons first others => by
    have hfirst := fieldDataIn_le first ht
    have hothers := eachDataIn_le others ht
    rw [List.map_cons, List.sum_cons]
    omega
termination_by structural h

theorem membersDataIn_le {p p' : Stand} {members : List (String × FieldType)} {scope : ScopeId}
    {fs : List Field} (h : FieldsConform limit data a p members scope fs p')
    (ht : ∀ member ∈ members, member.2.WellFormed clocks) :
    p.position + membersDataIn a members fs ≤ p'.position :=
  match h with
  | .nil => Nat.le_refl _
  | .cons first others => by
    obtain ⟨hmember, hrest⟩ := List.forall_mem_cons.mp ht
    have hfirst := fieldDataIn_le first hmember
    have hothers := membersDataIn_le others hrest
    rw [membersDataIn]
    dsimp only [Stand.bound] at hothers
    omega
termination_by structural h

theorem fieldDataIn_le {p p' : Stand} {t : FieldType} {scope : ScopeId} {name : String} {f : Field}
    (h : FieldConforms limit data a p t scope name f p') (ht : t.WellFormed clocks) :
    p.position + t.dataIn a f.value ≤ p'.position :=
  match h with
  | .mk _ _ value => by
    have hvalue := dataIn_le value ht
    have hpadding := le_alignUp t.alignment p.position
    rw [Stand.aligned] at hvalue
    dsimp only at hvalue
    omega
termination_by structural h

end

mutual

/-- A value of a type whose values all hold data does. -/
theorem dataIn_pos {p p' : Stand} {t : FieldType} {scope : ScopeId} {name : String} {v : Value}
    (h : Conforms limit data a p t scope name v p') (ht : t.takesBits = true) : 0 < t.dataIn a v :=
  match h with
  | .integer _ | .float | .string _ | .enum _ => Nat.one_pos
  | .array _ contents => by
    rw [takesBits, Bool.and_eq_true] at ht
    exact arrayDataIn_pos contents (of_decide_eq_true ht.1) ht.2 fun _ => rfl
  | .struct fields => membersDataIn_pos fields ht
  | .variant _ _ alternative conforms => by
    rw [dataIn, alternativeDataIn_of_lookup alternative]
    exact fieldDataIn_pos conforms (takesBits_of_lookup alternative ht)
termination_by structural h

theorem arrayDataIn_pos {p p' : Stand} {element : FieldType} {scope : ScopeId} {length : ℕ}
    {collect : List Field → Value} {v : Value}
    (h : ElementsConform limit data a p element scope length collect v p') (hlength : length ≠ 0)
    (ht : element.takesBits = true) (hcollect : ∀ elements, (collect elements).elements = elements) :
    0 < dataIn a (.array element length) v :=
  match h with
  | .text character _ _ _ => by
    rw [dataIn, if_pos character]
    omega
  | .values character each => by
    have hall := eachDataIn_pos each ht
    rw [dataIn, if_neg (Bool.eq_false_iff.mp character), hcollect]
    refine List.sum_pos _ (fun n hn => ?_) ?_
    · obtain ⟨f, hf, rfl⟩ := List.mem_map.mp hn
      exact hall f hf
    · intro hnil
      exact hlength (List.length_eq_zero_iff.mpr (List.map_eq_nil_iff.mp hnil))
termination_by structural h

theorem eachDataIn_pos {p p' : Stand} {element : FieldType} {scope : ScopeId} {index : ℕ}
    {elements : List Field} (h : EachConforms limit data a p element scope index elements p')
    (ht : element.takesBits = true) : ∀ f ∈ elements, 0 < element.dataIn a f.value :=
  match h with
  | .nil => fun _ hf => absurd hf List.not_mem_nil
  | .cons first others =>
    List.forall_mem_cons.mpr ⟨fieldDataIn_pos first ht, eachDataIn_pos others ht⟩
termination_by structural h

theorem membersDataIn_pos {p p' : Stand} {members : List (String × FieldType)} {scope : ScopeId}
    {fs : List Field} (h : FieldsConform limit data a p members scope fs p')
    (ht : someMemberTakesBits members = true) : 0 < membersDataIn a members fs :=
  match h with
  | .nil => by cases ht
  | .cons first others => by
    rw [membersDataIn]
    rcases (Bool.or_eq_true _ _).mp ht with hmember | hrest
    · have hfirst := fieldDataIn_pos first hmember
      omega
    · have hothers := membersDataIn_pos others hrest
      omega
termination_by structural h

theorem fieldDataIn_pos {p p' : Stand} {t : FieldType} {scope : ScopeId} {name : String} {f : Field}
    (h : FieldConforms limit data a p t scope name f p') (ht : t.takesBits = true) :
    0 < t.dataIn a f.value :=
  match h with
  | .mk _ _ value => dataIn_pos value ht
termination_by structural h

end

/-- The elements of an array or a sequence whose elements are no characters. -/
lemma elements_of_conforms {p p' : Stand} {t element : FieldType} {scope : ScopeId} {name : String}
    {v : Value} (h : Conforms limit data a p t scope name v p') (helement : t.element? = some element)
    (hother : element.isCharacter = false) :
    v.elements.length ≤ limit ∧
      t.dataIn a v = (v.elements.map fun f => element.dataIn a f.value).sum ∧
      (element.takesBits = true → ∀ f ∈ v.elements, element.holdsData a f = true) := by
  have hcontents {length : ℕ} {collect : List Field → Value}
      (hlength : length ≤ limit) (hcollect : ∀ elements, (collect elements).elements = elements)
      (h : ElementsConform limit data a p element scope length collect v p') :
      v.elements.length ≤ limit ∧
        (element.takesBits = true → ∀ f ∈ v.elements, element.holdsData a f = true) := by
    cases h with
    | text character => exact absurd (character.symm.trans hother) nofun
    | values _ each =>
      rw [hcollect]
      exact ⟨hlength, fun ht f hf => decide_eq_true (eachDataIn_pos each ht f hf)⟩
  cases h with
  | array length_le contents =>
    cases helement
    obtain ⟨hlimit, hdata⟩ := hcontents length_le (fun _ => rfl) contents
    exact ⟨hlimit, by rw [dataIn, hother]; rfl, hdata⟩
  | sequence _ _ length_le contents =>
    cases helement
    obtain ⟨hlimit, hdata⟩ := hcontents length_le (fun _ => rfl) contents
    exact ⟨hlimit, by rw [dataIn, hother]; rfl, hdata⟩
  | _ => cases helement

end Conforms

/-! ## What has been paid for -/

/-- **The value has been paid for** with so many bits: neither its data nor, at any depth, its elements that
hold data outnumber them.  If it is an array or a sequence, but of characters, its elements are within the
limit on lengths; those that hold data do not outnumber the bits, and if every value of their type holds data,
then all the elements do not. -/
structure Paid (limit : ℕ) (a : Arena) (t : FieldType) (v : Value) (bits : ℕ) : Prop where
  data_le : t.dataIn a v ≤ bits
  depth_le : ∀ depth, t.elementsAt a depth v ≤ bits
  elements : ∀ element, t.element? = some element → element.isCharacter = false →
    v.elements.length ≤ limit ∧ v.elements.countP (element.holdsData a) ≤ bits ∧
      (element.takesBits = true → v.elements.length ≤ bits)

section Decoding

variable {limit : ℕ} {a : Arena} {clocks : Set String} {t : FieldType} {scope : ScopeId} {s s' : DecodeState}

/-- **What is decoded has been paid for** with the bits that the cursor has moved. -/
lemma paid_of_decodeField {name : String} {f : Field} (ht : t.WellFormed clocks)
    (h : t.decode limit scope name s = .ok f s') (hkeeps : a.Keeps s s') :
    t.Paid limit a f.value (s'.cursor.position - s.cursor.position) := by
  have hconforms := conforms_of_decode h hkeeps
  have hdata : s.cursor.position + t.dataIn a f.value ≤ s'.cursor.position := fieldDataIn_le hconforms ht
  have hbits : t.dataIn a f.value ≤ s'.cursor.position - s.cursor.position := by omega
  refine ⟨hbits, fun depth => (elementsAt_le a depth t f.value).trans hbits, ?_⟩
  intro element helement hother
  cases hconforms with
  | mk _ _ value =>
    obtain ⟨hlimit, hsum, hall⟩ := elements_of_conforms value helement hother
    have hcount : f.value.elements.countP (element.holdsData a) ≤ s'.cursor.position - s.cursor.position := by
      refine Nat.le_trans ?_ hbits
      rw [hsum]
      exact countP_pos_le_sum _ _
    refine ⟨hlimit, hcount, fun htakes => ?_⟩
    rwa [List.countP_eq_length.mpr (hall htakes)] at hcount

/-- A block has been paid for with the bits that the cursor has moved. -/
lemma paid_of_decodeBlock {block : StaticScope} (ht : t.WellFormed clocks) (hstruct : t.isStruct = true)
    (h : t.decodeBlock limit block s = .ok scope s') (hkeeps : a.Keeps s s') :
    t.Paid limit a (.struct scope) (s'.cursor.position - s.cursor.position) := by
  cases ht with
  | @struct least members _ _ htypes =>
    have hfields := membersDataIn_le (fieldsConform_of_decodeBlock h hkeeps) htypes
    have hpadding := le_alignUp (FieldType.struct least members).alignment s.cursor.position
    have hbits : (FieldType.struct least members).dataIn a (.struct scope) ≤
        s'.cursor.position - s.cursor.position := by
      rw [dataIn, Value.members]
      dsimp only [DecodeState.stand] at hfields
      omega
    exact ⟨hbits, fun depth => (elementsAt_le a depth _ _).trans hbits, fun _ helement => nomatch helement⟩
  | _ => cases hstruct

end Decoding

end FieldType

/-- **Whatever metadata is accepted, and whatever the data, all that is decoded has been paid for**: every
value of every declaration in a block, and every block as a whole.  A block has no more bits to pay with
than are ahead of the cursor. -/
theorem Metadata.paid_of_decode {root : Tsdl.Node} {metadata : Metadata}
    (h : Metadata.ofTree root = .ok metadata) {layout : FieldType} (hlayout : layout ∈ metadata.layouts) :
    (∀ t, layout.Reaches t → ∀ (limit : ℕ) (scope : ScopeId) (name : String) (s s' : DecodeState) (f : Field),
      t.decode limit scope name s = .ok f s' →
      t.Paid limit s'.scopes.arena f.value (s'.cursor.position - s.cursor.position)) ∧
    ∀ (limit : ℕ) (block : StaticScope) (s s' : DecodeState) (scope : ScopeId),
      layout.decodeBlock limit block s = .ok scope s' →
      layout.Paid limit s'.scopes.arena (.struct scope) (s'.cursor.position - s.cursor.position) ∧
        s'.cursor.position - s.cursor.position ≤ s.cursor.remaining := by
  have hshape := (accepted_of_ofTree h).1.isLayout hlayout
  refine ⟨fun t hreach limit scope name s s' f hdecode => ?_, fun limit block s s' scope hdecode => ⟨?_, ?_⟩⟩
  · obtain ⟨ht, -⟩ := hshape.wellFormed.of_reaches hshape.isTagged hreach
    exact FieldType.paid_of_decodeField ht hdecode fun _ _ _ => rfl
  · exact FieldType.paid_of_decodeBlock hshape.wellFormed hshape.isStruct hdecode fun _ _ _ => rfl
  · obtain ⟨-, hcontents⟩ := FieldType.of_decodeBlock_ok hdecode
    have hfollows := ((layout.decodeContents_grows limit block scope).of_ok hcontents).cursor
    have hend := s'.cursor.position_le
    rw [hfollows.limit] at hend
    exact Nat.sub_le_sub_right hend _

section Example

open Tsdl

/-- A tree with one kind of event: a number of columns and, in the given number of rows, a byte for each
column. -/
def gridEvent (rows : String) : Node :=
  .block .root
    [.block .event
      [.value "name" (.word .unaryString "e"),
        .type "fields" (.struct
          [.member (.integer "8") "columns" [],
            .member (.integer "8") "rows" [.word .unaryDec rows, .word .unaryString "columns"]])]]

/-- Decodes the first layout of a tree from some bytes.  Given are the elements in the last field, how many
of them and of their elements hold data, and the bits that were taken. -/
def gridCounts (root : Node) (bytes : List UInt8) : Option (ℕ × ℕ × ℕ × ℕ) := do
  let metadata ← (Metadata.ofTree root).toOption
  let layout ← metadata.layouts.head?
  let start : DecodeState := { cursor := .ofBytes ⟨bytes.toArray⟩, scopes := .empty }
  match layout.decodeBlock 1000 .eventFields start with
  | .error _ _ => none
  | .ok scope s =>
    let f ← (s.scopes.arena.fields scope).getLast?
    return (f.value.elements.length, layout.elementsAt s.scopes.arena 0 (.struct scope),
      layout.elementsAt s.scopes.arena 1 (.struct scope), s.cursor.position)

lemma exists_of_gridCounts {root : Node} {bytes : List UInt8} {elements outer inner bits : ℕ}
    (h : gridCounts root bytes = some (elements, outer, inner, bits)) :
    ∃ (metadata : Metadata) (layout : FieldType) (s s' : DecodeState) (scope : ScopeId) (f : Field),
      Metadata.ofTree root = .ok metadata ∧ layout ∈ metadata.layouts ∧
      layout.decodeBlock 1000 .eventFields s = .ok scope s' ∧ f ∈ s'.scopes.arena.fields scope ∧
      f.value.elements.length = elements ∧ layout.elementsAt s'.scopes.arena 0 (.struct scope) = outer ∧
      layout.elementsAt s'.scopes.arena 1 (.struct scope) = inner ∧
      s'.cursor.position - s.cursor.position = bits := by
  obtain ⟨metadata, hmetadata, h⟩ := Option.bind_eq_some_iff.mp h
  obtain ⟨layout, hlayout, h⟩ := Option.bind_eq_some_iff.mp h
  dsimp only at h
  split at h
  · cases h
  · rename_i scope s hdecode
    obtain ⟨f, hf, hcounts⟩ := Option.bind_eq_some_iff.mp h
    cases hcounts
    exact ⟨metadata, layout, _, s, scope, f, eq_ok_of_toOption hmetadata, List.mem_of_head? hlayout,
      hdecode, List.mem_of_getLast? hf, rfl, rfl, rfl, Nat.sub_zero _⟩

theorem Metadata.paid_of_decode_gridEvent : ∃ (metadata : Metadata) (layout : FieldType)
    (s s' : DecodeState) (scope : ScopeId),
    Metadata.ofTree (gridEvent "2") = .ok metadata ∧ layout ∈ metadata.layouts ∧
    layout.decodeBlock 1000 .eventFields s = .ok scope s' ∧
    layout.elementsAt s'.scopes.arena 0 (.struct scope) = 2 ∧
    layout.elementsAt s'.scopes.arena 1 (.struct scope) = 6 ∧
    s'.cursor.position - s.cursor.position = 56 ∧
    layout.Paid 1000 s'.scopes.arena (.struct scope) (s'.cursor.position - s.cursor.position) := by
  have hcounts : gridCounts (gridEvent "2") [3, 1, 2, 3, 4, 5, 6] = some (2, 2, 6, 56) := by
    decide +kernel
  obtain ⟨metadata, layout, s, s', scope, f, hmetadata, hlayout, hdecode, -, -, houter, hinner, hbits⟩ :=
    exists_of_gridCounts hcounts
  obtain ⟨-, hblocks⟩ := Metadata.paid_of_decode hmetadata hlayout
  exact ⟨metadata, layout, s, s', scope, hmetadata, hlayout, hdecode, houter, hinner, hbits,
    (hblocks 1000 .eventFields s s' scope hdecode).1⟩

/-- **Elements that hold no data may outnumber the bits.**  Of nine rows without columns, all of which are
sequences of length zero, nine elements are decoded from the eight bits of that length. -/
theorem Metadata.not_forall_elements_le : ¬∀ (root : Node) (metadata : Metadata),
    Metadata.ofTree root = .ok metadata → ∀ layout ∈ metadata.layouts,
    ∀ (limit : ℕ) (block : StaticScope) (s s' : DecodeState) (scope : ScopeId),
      layout.decodeBlock limit block s = .ok scope s' → ∀ f ∈ s'.scopes.arena.fields scope,
        f.value.elements.length ≤ s'.cursor.position - s.cursor.position := by
  intro h
  have hcounts : gridCounts (gridEvent "9") [0] = some (9, 0, 0, 8) := by decide +kernel
  obtain ⟨metadata, layout, s, s', scope, f, hmetadata, hlayout, hdecode, hf, helements, -, -, hbits⟩ :=
    exists_of_gridCounts hcounts
  have hle := h _ metadata hmetadata layout hlayout 1000 .eventFields s s' scope hdecode f hf
  omega

end Example

end CommonTrace
