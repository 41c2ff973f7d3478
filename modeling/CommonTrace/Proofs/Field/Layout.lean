import CommonTrace.Proofs.Bit.Packing
import CommonTrace.Proofs.Field.Conformance

/-!
# The layout of values

A `Datum` is a value before it is written.  `FieldType.layout` writes it: before every value there are
zero bits up to the alignment of its type, an integer is laid out in two's complement, a string ends with
a zero byte, and a text in the place of characters has zero bytes up to their number.  Where the bits of a
value come to lie depends on where it starts, because of the padding, and so a layout is a function of
the position.

Not every datum can be written with every type.  `FieldType.Accepts` says which ones can.  The length of
a sequence and the alternative of a variant have to be those that their paths lead to in what has been
decoded before, and so the rules follow what is stored on the way: the value that the datum becomes, and
the scopes behind it.

How a value is stored is also said the other way round.  `FieldType.Shows` reads a stored value with all
that is in the scopes it points at, and says that it is a given datum.
-/

namespace CommonTrace

/-- A value as it is written. -/
inductive Datum where
  /-- An integer, be it labelled or not. -/
  | integer (n : ℤ)
  /-- A floating point number, as the number that its bits spell. -/
  | float (word : ℕ)
  /-- A string. -/
  | text (text : String)
  /-- A text in the place of so many characters. -/
  | characters (length : ℕ) (text : String)
  /-- The elements of an array or a sequence. -/
  | list (items : List Datum)
  /-- The values of the members of a structure. -/
  | struct (members : List Datum)
  /-- The alternative of a variant that is selected, with its value. -/
  | variant (selection : String) (inner : Datum)

/-! ## Layouts -/

/-- A layout behind the zero bits up to an alignment. -/
def padded (alignment : ℕ) (lay : ℕ → List Bool) (position : ℕ) : List Bool :=
  List.replicate (alignUp alignment position - position) false ++ lay (alignUp alignment position)

lemma length_padded (alignment : ℕ) (lay : ℕ → List Bool) (position : ℕ) :
    position + (padded alignment lay position).length =
      alignUp alignment position + (lay (alignUp alignment position)).length := by
  have hle := le_alignUp alignment position
  rw [padded, List.length_append, List.length_replicate]
  omega

/-- One layout after the other. -/
def layEach {α : Type} (lay : α → ℕ → List Bool) : List α → ℕ → List Bool
  | [], _ => []
  | a :: rest, position =>
    lay a position ++ layEach lay rest (position + (lay a position).length)

/-- Bytes one after the other need no padding in between. -/
lemma layEach_bytes (order : ByteOrder) (bytes : List UInt8) {position : ℕ}
    (haligned : position % 8 = 0) :
    layEach (fun byte : UInt8 => padded 8 fun _ => order.bits 8 byte.toNat) bytes position =
      order.bitsOfBytes bytes := by
  induction bytes generalizing position with
  | nil => rfl
  | cons byte bytes ih =>
    have hfirst : padded 8 (fun _ => order.bits 8 byte.toNat) position = order.bits 8 byte.toNat := by
      rw [padded, alignUp_of_mod_eq_zero haligned, Nat.sub_self, List.replicate_zero, List.nil_append]
    rw [layEach, hfirst, ByteOrder.length_bits, ih (by omega)]
    rfl

/-- The bytes of a text, with zero bytes up to a number of bytes. -/
def textBytes (length : ℕ) (text : String) : List UInt8 :=
  utf8Bytes text ++ List.replicate (length - (utf8Bytes text).length) 0

lemma length_textBytes {length : ℕ} {text : String} (h : (utf8Bytes text).length ≤ length) :
    (textBytes length text).length = length := by
  rw [textBytes, List.length_append, List.length_replicate, Nat.add_sub_cancel' h]

/-- The bytes up to the first zero byte are those of the text. -/
lemma textOfBytes_textBytes {length : ℕ} {text : String} (h : '\x00' ∉ text.toList) :
    textOfBytes (textBytes length text) = text := by
  have hfree := zero_notMem_utf8Bytes h
  have hall : ∀ byte ∈ utf8Bytes text, decide (byte ≠ 0) = true := by
    intro byte hbyte
    refine decide_eq_true ?_
    rintro rfl
    exact hfree hbyte
  have hzeros : ∀ count, (List.replicate count (0 : UInt8)).takeWhile (· ≠ 0) = [] := by simp
  unfold textOfBytes textBytes
  rw [List.takeWhile_append_of_pos hall, hzeros, List.append_nil, Utf8.decode_utf8Bytes]

/-- The low bits of an integer in two's complement. -/
def integerBits (order : ByteOrder) (width : ℕ) (n : ℤ) : List Bool :=
  order.bits width (n % (twoPow width : ℤ)).toNat

@[simp] lemma length_integerBits (order : ByteOrder) (width : ℕ) (n : ℤ) :
    (integerBits order width n).length = width :=
  order.length_bits width _

/-- The elements of an array or a sequence.  A character is a number of eight bits. -/
def layoutElements (order : ByteOrder) (alignment : ℕ) (layElement : Datum → ℕ → List Bool)
    (d : Datum) (position : ℕ) : List Bool :=
  match d with
  | .characters length text =>
    layEach (fun byte => padded alignment fun _ => order.bits 8 byte.toNat) (textBytes length text)
      position
  | .list items => layEach (fun item => padded alignment (layElement item)) items position
  | _ => []

namespace FieldType

mutual

/-- The bits of a value that starts at an aligned position.  A datum that the type does not accept has
none. -/
def layoutValue (order : ByteOrder) (t : FieldType) (d : Datum) (position : ℕ) : List Bool :=
  match t with
  | .integer t =>
    match d with
    | .integer n => integerBits order t.width n
    | _ => []
  | .float t =>
    match d with
    | .float word => order.bits t.width word
    | _ => []
  | .string _ =>
    match d with
    | .text text => order.bitsOfBytes (utf8Bytes text ++ [0])
    | _ => []
  | .enum t =>
    match d with
    | .integer n => integerBits order t.container.width n
    | _ => []
  | .array element _ =>
    layoutElements order element.alignment (fun d => layoutValue order element d) d position
  | .sequence element _ =>
    layoutElements order element.alignment (fun d => layoutValue order element d) d position
  | .struct _ members =>
    match d with
    | .struct ds => layoutMembers order members ds position
    | _ => []
  | .variant _ alternatives =>
    match d with
    | .variant selection inner => layoutAlternative order alternatives selection inner position
    | _ => []
termination_by structural t

/-- The members of a structure, one behind the other. -/
def layoutMembers (order : ByteOrder) (members : List (String × FieldType)) (ds : List Datum)
    (position : ℕ) : List Bool :=
  match members with
  | [] => []
  | (_, t) :: rest =>
    match ds with
    | [] => []
    | d :: ds =>
      let first := padded t.alignment (layoutValue order t d) position
      first ++ layoutMembers order rest ds (position + first.length)
termination_by structural members

/-- The selected one of the alternatives. -/
def layoutAlternative (order : ByteOrder) (alternatives : List (String × FieldType))
    (selection : String) (d : Datum) (position : ℕ) : List Bool :=
  match alternatives with
  | [] => []
  | (name, t) :: rest =>
    if name = selection then padded t.alignment (layoutValue order t d) position
    else layoutAlternative order rest selection d position
termination_by structural alternatives

end

/-- **The layout of a value**, with the zero bits before it. -/
def layout (order : ByteOrder) (t : FieldType) (d : Datum) : ℕ → List Bool :=
  padded t.alignment (layoutValue order t d)

end FieldType

/-! ## Types of one byte order -/

/-- A number of bits that can be read as one number, written in the given byte order. -/
structure ByteOrder.Carries (order : ByteOrder) (width : ℕ) (own : ByteOrder) : Prop where
  width_pos : 0 < width
  width_le : width ≤ 64
  own_eq : own = order

namespace FieldType

/-- An element that is a character takes the bits of its byte and no others. -/
def Dense (element : FieldType) : Prop :=
  element.isCharacter → element.alignment = 8

mutual

/-- **A type of one byte order.**  All its numbers can be read, and all have that order. -/
def Regular (order : ByteOrder) : FieldType → Prop
  | .integer t => order.Carries t.width t.order
  | .float t => order.Carries t.width t.order
  | .string _ => True
  | .enum t => order.Carries t.container.width t.container.order
  | .array element _ => Dense element ∧ Regular order element
  | .sequence element _ => Dense element ∧ Regular order element
  | .struct _ members => MembersRegular order members
  | .variant _ alternatives => MembersRegular order alternatives

/-- All members are of one byte order. -/
def MembersRegular (order : ByteOrder) : List (String × FieldType) → Prop
  | [] => True
  | (_, t) :: rest => Regular order t ∧ MembersRegular order rest

end

/-! ## Data that types accept -/

mutual

/-- **A datum of a type**, where `chain` has been decoded before.  Behind it, the datum is stored as the
given value, and `chain'` has been decoded. -/
inductive Accepts (limit : ℕ) :
    ScopeChain → FieldType → ScopeId → String → Datum → Value → ScopeChain → Prop
  | integer {chain : ScopeChain} {t : IntegerType} {scope : ScopeId} {name : String} {n : ℤ}
      (minimum_le : t.minimum ≤ n) (le_maximum : n ≤ t.maximum) :
      Accepts limit chain (.integer t) scope name (.integer n) (.integer ⟨n, t.width, t.signed⟩) chain
  | float {chain : ScopeChain} {t : FloatType} {scope : ScopeId} {name : String} {word : ℕ}
      (word_lt : word < twoPow t.width) :
      Accepts limit chain (.float t) scope name (.float word) (.float (t.value word)) chain
  | string {chain : ScopeChain} {encoding : Encoding} {scope : ScopeId} {name : String}
      {text : String} (nonzero : '\x00' ∉ text.toList) :
      Accepts limit chain (.string encoding) scope name (.text text) (.text text) chain
  | enum {chain : ScopeChain} {t : EnumType} {scope : ScopeId} {name : String} {n : ℤ}
      (minimum_le : t.container.minimum ≤ n) (le_maximum : n ≤ t.container.maximum) :
      Accepts limit chain (.enum t) scope name (.integer n)
        (.enum ⟨n, t.container.width, t.container.signed⟩ (t.labelOf? n)) chain
  | array {chain chain' : ScopeChain} {element : FieldType} {length : ℕ} {scope : ScopeId}
      {name : String} {d : Datum} {v : Value} (length_le : length ≤ limit)
      (elements : ElementsAccept limit chain element scope length .array d v chain') :
      Accepts limit chain (.array element length) scope name d v chain'
  | sequence {chain chain' : ScopeChain} {element : FieldType} {path : FieldPath} {scope : ScopeId}
      {name : String} {found : Field} {length : ℕ} {d : Datum} {v : Value}
      (resolved : chain.resolve? scope path = some found)
      (length_eq : found.unsigned? = some length) (length_le : length ≤ limit)
      (elements : ElementsAccept limit chain element scope length .sequence d v chain') :
      Accepts limit chain (.sequence element path) scope name d v chain'
  | struct {chain chain' : ScopeChain} {least : ℕ} {members : List (String × FieldType)}
      {scope : ScopeId} {name : String} {ds : List Datum}
      (accept : MembersAccept limit (chain.opened scope name) members chain.nextScope ds chain') :
      Accepts limit chain (.struct least members) scope name (.struct ds) (.struct chain.nextScope)
        chain'
  | variant {chain chain' : ScopeChain} {tag : FieldPath} {alternatives : List (String × FieldType)}
      {scope : ScopeId} {name : String} {found : Field} {selection : String} {t : FieldType}
      {d : Datum} {v : Value} (resolved : chain.resolve? scope tag = some found)
      (selects : found.selection? = some selection)
      (alternative : alternatives.lookup selection = some t)
      (accepts : Accepts limit chain t scope selection d v chain') :
      Accepts limit chain (.variant (some tag) alternatives) scope name (.variant selection d)
        (.variant selection ⟨selection, t, v⟩) chain'

/-- **The elements of an array or a sequence**: a text that has room in the place of characters,
otherwise as many data as there are elements. -/
inductive ElementsAccept (limit : ℕ) : ScopeChain → FieldType → ScopeId → ℕ →
    (List Field → Value) → Datum → Value → ScopeChain → Prop
  | characters {chain : ScopeChain} {element : FieldType} {scope : ScopeId} {length : ℕ}
      {collect : List Field → Value} {text : String} (character : element.isCharacter = true)
      (room : (utf8Bytes text).length ≤ length) (nonzero : '\x00' ∉ text.toList) :
      ElementsAccept limit chain element scope length collect (.characters length text) (.text text)
        chain
  | values {chain chain' : ScopeChain} {element : FieldType} {scope : ScopeId}
      {collect : List Field → Value} {items : List Datum} {elements : List Field}
      (character : element.isCharacter = false)
      (each : EachAccepts limit chain element scope 0 items elements chain') :
      ElementsAccept limit chain element scope items.length collect (.list items) (collect elements)
        chain'

/-- **Data one after the other**, which become elements with the indices from `index` on. -/
inductive EachAccepts (limit : ℕ) :
    ScopeChain → FieldType → ScopeId → ℕ → List Datum → List Field → ScopeChain → Prop
  | nil {chain : ScopeChain} {element : FieldType} {scope : ScopeId} {index : ℕ} :
      EachAccepts limit chain element scope index [] [] chain
  | cons {chain chain₁ chain' : ScopeChain} {element : FieldType} {scope : ScopeId} {index : ℕ}
      {d : Datum} {v : Value} {items : List Datum} {elements : List Field}
      (first : Accepts limit chain element scope (toString index) d v chain₁)
      (others : EachAccepts limit chain₁ element scope (index + 1) items elements chain') :
      EachAccepts limit chain element scope index (d :: items)
        (⟨toString index, element, v⟩ :: elements) chain'

/-- **The members of a structure**, each bound in the scope of the structure before the next one. -/
inductive MembersAccept (limit : ℕ) :
    ScopeChain → List (String × FieldType) → ScopeId → List Datum → ScopeChain → Prop
  | nil {chain : ScopeChain} {scope : ScopeId} : MembersAccept limit chain [] scope [] chain
  | cons {chain chain₁ chain' : ScopeChain} {name : String} {t : FieldType}
      {members : List (String × FieldType)} {scope : ScopeId} {d : Datum} {v : Value}
      {ds : List Datum} (first : Accepts limit chain t scope name d v chain₁)
      (others : MembersAccept limit (chain₁.bound scope ⟨name, t, v⟩) members scope ds chain') :
      MembersAccept limit chain ((name, t) :: members) scope (d :: ds) chain'

end

/-! ## Data that are stored -/

mutual

/-- **A stored value is a datum**, with the fields of its structures in the arena `a`. -/
inductive Shows (a : Arena) : FieldType → Datum → Value → Prop
  | integer {t : IntegerType} {n : ℤ} :
      Shows a (.integer t) (.integer n) (.integer ⟨n, t.width, t.signed⟩)
  | float {t : FloatType} {word : ℕ} : Shows a (.float t) (.float word) (.float (t.value word))
  | string {encoding : Encoding} {text : String} : Shows a (.string encoding) (.text text) (.text text)
  | enum {t : EnumType} {n : ℤ} :
      Shows a (.enum t) (.integer n)
        (.enum ⟨n, t.container.width, t.container.signed⟩ (t.labelOf? n))
  | array {element : FieldType} {length : ℕ} {d : Datum} {v : Value}
      (elements : ElementsShow a element .array d v) : Shows a (.array element length) d v
  | sequence {element : FieldType} {path : FieldPath} {d : Datum} {v : Value}
      (elements : ElementsShow a element .sequence d v) : Shows a (.sequence element path) d v
  | struct {least : ℕ} {members : List (String × FieldType)} {ds : List Datum} {inner : ScopeId}
      (fields : MembersShow a members ds (a.fields inner)) :
      Shows a (.struct least members) (.struct ds) (.struct inner)
  | variant {tag : Option FieldPath} {alternatives : List (String × FieldType)} {selection : String}
      {t : FieldType} {d : Datum} {v : Value} (alternative : alternatives.lookup selection = some t)
      (shows : Shows a t d v) :
      Shows a (.variant tag alternatives) (.variant selection d) (.variant selection ⟨selection, t, v⟩)

/-- Stored elements are a text or data. -/
inductive ElementsShow (a : Arena) : FieldType → (List Field → Value) → Datum → Value → Prop
  | characters {element : FieldType} {length : ℕ} {collect : List Field → Value} {text : String} :
      ElementsShow a element collect (.characters length text) (.text text)
  | values {element : FieldType} {collect : List Field → Value} {items : List Datum}
      {elements : List Field} (each : EachShows a element 0 items elements) :
      ElementsShow a element collect (.list items) (collect elements)

/-- Elements with the indices from `index` on are data. -/
inductive EachShows (a : Arena) : FieldType → ℕ → List Datum → List Field → Prop
  | nil {element : FieldType} {index : ℕ} : EachShows a element index [] []
  | cons {element : FieldType} {index : ℕ} {d : Datum} {v : Value} {items : List Datum}
      {elements : List Field} (first : Shows a element d v)
      (others : EachShows a element (index + 1) items elements) :
      EachShows a element index (d :: items) (⟨toString index, element, v⟩ :: elements)

/-- **Fields are the data of members**: one for each member, with its name. -/
inductive MembersShow (a : Arena) : List (String × FieldType) → List Datum → List Field → Prop
  | nil : MembersShow a [] [] []
  | cons {name : String} {t : FieldType} {members : List (String × FieldType)} {d : Datum}
      {v : Value} {ds : List Datum} {fs : List Field} (first : Shows a t d v)
      (others : MembersShow a members ds fs) :
      MembersShow a ((name, t) :: members) (d :: ds) (⟨name, t, v⟩ :: fs)

end

end FieldType

end CommonTrace
