import CommonTrace.Proofs.Field.Contents
import CommonTrace.Proofs.Text.Utf8

/-!
# Decoded values conform to their types

What a type says of its values goes beyond their shape.  Integers are in the range of their type, and they
are what the bits at their place stand for.  The length of a sequence is what its path has led to when the
sequence was reached, and the alternative of a variant is the one that its tag has selected.  The elements
of an array and the fields of a structure are values of their types themselves, each read where the one
before has ended.

`FieldType.Conforms` says all this by one rule for each kind of type.  A rule goes from where a decoding
stands to where it stands behind the value (`Stand`), because paths are resolved on the way.  The fields of
structures are looked up in an arena that is given beforehand.  It may be the arena at the end of the
decoding or any later one, as long as the scopes of the value are still there (`Arena.Keeps`): that a value
conforms is not undone by what is decoded afterwards.

`FieldType.conforms_of_decode` is the result: whatever has been decoded conforms.
-/

namespace CommonTrace

/-! ## Where a decoding stands -/

namespace ScopeChain

/-- With a scope opened inside another. -/
def opened (chain : ScopeChain) (parent : ScopeId) (name : String) : ScopeChain :=
  { chain with arena := (chain.arena.openChild parent name).2 }

/-- With a scope opened for a block. -/
def openedBlock (chain : ScopeChain) (block : StaticScope) : ScopeChain :=
  { chain with arena := (chain.arena.openBlock block).2 }

/-- With a field bound in a scope. -/
def bound (chain : ScopeChain) (scope : ScopeId) (field : Field) : ScopeChain :=
  { chain with arena := chain.arena.insert scope field }

/-- The number of the scope that is opened next. -/
def nextScope (chain : ScopeChain) : ScopeId :=
  chain.arena.scopes.size

variable (chain : ScopeChain) (parent : ScopeId) (name : String) (block : StaticScope)

lemma nextScope_lt_opened : chain.nextScope < (chain.opened parent name).nextScope := by
  simp [nextScope, opened, Arena.openChild]

lemma nextScope_lt_openedBlock : chain.nextScope < (chain.openedBlock block).nextScope := by
  simp [nextScope, openedBlock, Arena.openBlock]

/-- A scope has no fields when it is opened. -/
lemma fields_opened : (chain.opened parent name).arena.fields chain.nextScope = [] := by
  simp [nextScope, opened, Arena.openChild, Arena.fields]

lemma fields_openedBlock : (chain.openedBlock block).arena.fields chain.nextScope = [] := by
  simp [nextScope, openedBlock, Arena.openBlock, Arena.fields]

end ScopeChain

/-- Where a decoding stands: what it has stored, and the bit that is read next. -/
structure Stand where
  /-- The fields decoded so far. -/
  scopes : ScopeChain
  /-- The bit that is read next. -/
  position : ℕ

namespace Stand

/-- Behind the padding before a value. -/
def aligned (p : Stand) (alignment : ℕ) : Stand :=
  { p with position := alignUp alignment p.position }

/-- A number of bits further. -/
def moved (p : Stand) (bits : ℕ) : Stand :=
  { p with position := p.position + bits }

/-- With a scope opened inside another. -/
def opened (p : Stand) (parent : ScopeId) (name : String) : Stand :=
  { p with scopes := p.scopes.opened parent name }

/-- With a field bound in a scope. -/
def bound (p : Stand) (scope : ScopeId) (field : Field) : Stand :=
  { p with scopes := p.scopes.bound scope field }

end Stand

/-- Where a decoding stands in a state. -/
def DecodeState.stand (s : DecodeState) : Stand where
  scopes := s.scopes
  position := s.cursor.position

/-! ## Rules -/

/-- **An integer of a type**: it is in the range, and equals the bits at a position up to multiples of the
number of values. -/
structure IntegerType.Reads (t : IntegerType) (data : ByteArray) (position : ℕ) (n : IntegerValue) :
    Prop where
  bits : n.value % (twoPow t.width : ℤ) = Cursor.bitsAt data position t.width t.order
  minimum_le : t.minimum ≤ n.value
  le_maximum : n.value ≤ t.maximum
  width : n.width = t.width
  signed : n.signed = t.signed

/-- The bytes of a string, which ends with a zero byte, at a position. -/
structure ZeroTerminated (data : ByteArray) (position : ℕ) (bytes : List UInt8) : Prop where
  aligned : position % 8 = 0
  nonzero : 0 ∉ bytes
  between : bytes = Cursor.bytesBetween data (position / 8) (position / 8 + bytes.length)
  zero : data[position / 8 + bytes.length]? = some 0

/-- The name that a tag selects. -/
def Field.selection? (f : Field) : Option String :=
  match f.value with
  | .enum _ label => label
  | .text text => some text
  | _ => none

namespace FieldType

mutual

/-- **A value of a type**, read from `data` between two places, with the fields of its structures in the
arena `a`.  Its paths are resolved from `scope`, and it is called `name`. -/
inductive Conforms (limit : ℕ) (data : ByteArray) (a : Arena) :
    Stand → FieldType → ScopeId → String → Value → Stand → Prop
  | integer {p : Stand} {t : IntegerType} {scope : ScopeId} {name : String} {n : IntegerValue}
      (reads : t.Reads data p.position n) :
      Conforms limit data a p (.integer t) scope name (.integer n) (p.moved t.width)
  | float {p : Stand} {t : FloatType} {scope : ScopeId} {name : String} :
      Conforms limit data a p (.float t) scope name
        (.float (t.value (Cursor.bitsAt data p.position t.width t.order))) (p.moved t.width)
  | string {p : Stand} {encoding : Encoding} {scope : ScopeId} {name : String} {bytes : List UInt8}
      (terminated : ZeroTerminated data p.position bytes) :
      Conforms limit data a p (.string encoding) scope name (.text (Utf8.decode bytes))
        (p.moved (8 * (bytes.length + 1)))
  | enum {p : Stand} {t : EnumType} {scope : ScopeId} {name : String} {n : IntegerValue}
      (reads : t.container.Reads data p.position n) :
      Conforms limit data a p (.enum t) scope name (.enum n (t.labelOf? n.value))
        (p.moved t.container.width)
  | array {p p' : Stand} {element : FieldType} {length : ℕ} {scope : ScopeId} {name : String}
      {v : Value} (length_le : length ≤ limit)
      (contents : ElementsConform limit data a p element scope length .array v p') :
      Conforms limit data a p (.array element length) scope name v p'
  | sequence {p p' : Stand} {element : FieldType} {path : FieldPath} {scope : ScopeId}
      {name : String} {found : Field} {length : ℕ} {v : Value}
      (resolved : p.scopes.resolve? scope path = some found)
      (length_eq : found.unsigned? = some length) (length_le : length ≤ limit)
      (contents : ElementsConform limit data a p element scope length .sequence v p') :
      Conforms limit data a p (.sequence element path) scope name v p'
  | struct {p p' : Stand} {least : ℕ} {members : List (String × FieldType)} {scope : ScopeId}
      {name : String}
      (fields : FieldsConform limit data a (p.opened scope name) members p.scopes.nextScope
        (a.fields p.scopes.nextScope) p') :
      Conforms limit data a p (.struct least members) scope name (.struct p.scopes.nextScope) p'
  | variant {p p' : Stand} {tag : FieldPath} {alternatives : List (String × FieldType)}
      {scope : ScopeId} {name : String} {found : Field} {selection : String} {t : FieldType}
      {inner : Field} (resolved : p.scopes.resolve? scope tag = some found)
      (selects : found.selection? = some selection)
      (alternative : alternatives.lookup selection = some t)
      (conforms : FieldConforms limit data a p t scope selection inner p') :
      Conforms limit data a p (.variant (some tag) alternatives) scope name
        (.variant selection inner) p'

/-- **The elements of an array or a sequence**: a text in the place of characters, otherwise as many
values as there are elements. -/
inductive ElementsConform (limit : ℕ) (data : ByteArray) (a : Arena) :
    Stand → FieldType → ScopeId → ℕ → (List Field → Value) → Value → Stand → Prop
  | text {p : Stand} {element : FieldType} {scope : ScopeId} {length : ℕ}
      {collect : List Field → Value} {text : String} (character : element.isCharacter = true)
      (aligned : p.position % 8 = 0)
      (bytes : text =
        textOfBytes (Cursor.bytesBetween data (p.position / 8) (p.position / 8 + length)))
      (nonzero : '\x00' ∉ text.toList) :
      ElementsConform limit data a p element scope length collect (.text text) (p.moved (8 * length))
  | values {p p' : Stand} {element : FieldType} {scope : ScopeId} {collect : List Field → Value}
      {elements : List Field} (character : element.isCharacter = false)
      (each : EachConforms limit data a p element scope 0 elements p') :
      ElementsConform limit data a p element scope elements.length collect (collect elements) p'

/-- **Values one after the other**, which are named by their indices from `index` on. -/
inductive EachConforms (limit : ℕ) (data : ByteArray) (a : Arena) :
    Stand → FieldType → ScopeId → ℕ → List Field → Stand → Prop
  | nil {p : Stand} {element : FieldType} {scope : ScopeId} {index : ℕ} :
      EachConforms limit data a p element scope index [] p
  | cons {p p₁ p' : Stand} {element : FieldType} {scope : ScopeId} {index : ℕ} {f : Field}
      {rest : List Field}
      (first : FieldConforms limit data a p element scope (toString index) f p₁)
      (others : EachConforms limit data a p₁ element scope (index + 1) rest p') :
      EachConforms limit data a p element scope index (f :: rest) p'

/-- **The fields of a structure**, one for each member, each bound in the scope of the structure before
the next one is read. -/
inductive FieldsConform (limit : ℕ) (data : ByteArray) (a : Arena) :
    Stand → List (String × FieldType) → ScopeId → List Field → Stand → Prop
  | nil {p : Stand} {scope : ScopeId} : FieldsConform limit data a p [] scope [] p
  | cons {p p₁ p' : Stand} {name : String} {t : FieldType} {members : List (String × FieldType)}
      {scope : ScopeId} {f : Field} {rest : List Field}
      (first : FieldConforms limit data a p t scope name f p₁)
      (others : FieldsConform limit data a (p₁.bound scope f) members scope rest p') :
      FieldsConform limit data a p ((name, t) :: members) scope (f :: rest) p'

/-- **A field**: a value behind its padding, with its name and its type. -/
inductive FieldConforms (limit : ℕ) (data : ByteArray) (a : Arena) :
    Stand → FieldType → ScopeId → String → Field → Stand → Prop
  | mk {p p' : Stand} {t : FieldType} {scope : ScopeId} {name : String} {f : Field}
      (name_eq : f.name = name) (type_eq : f.type = t)
      (value : Conforms limit data a (p.aligned t.alignment) t scope name f.value p') :
      FieldConforms limit data a p t scope name f p'

end

end FieldType

/-! ## Scopes that stay -/

/-- **The scopes opened between two states** are in the arena as they are in the second state. -/
def Arena.Keeps (a : Arena) (s s' : DecodeState) : Prop :=
  ∀ i, s.scopes.arena.scopes.size ≤ i → i < s'.scopes.arena.scopes.size →
    a.scopes[i]? = s'.scopes.arena.scopes[i]?

namespace Arena.Keeps

variable {a : Arena} {s s₁ s' : DecodeState}

lemma later (h : a.Keeps s s') (hsize : s.scopes.arena.scopes.size ≤ s₁.scopes.arena.scopes.size) :
    a.Keeps s₁ s' :=
  fun i hge hlt => h i (Nat.le_trans hsize hge) hlt

/-- The fields of a scope that is kept. -/
lemma fields_eq (h : a.Keeps s s') {i : ScopeId} (hge : s.scopes.arena.scopes.size ≤ i)
    (hlt : i < s'.scopes.arena.scopes.size) : a.fields i = s'.scopes.arena.fields i :=
  Arena.fields_congr (h i hge hlt)

/-- What is bound later in a scope from before changes nothing. -/
lemma earlier {into : Option ScopeId} (h : a.Keeps s s') (hgrows : s₁.Grows into s')
    (hinto : ∀ scope ∈ into, scope < s.scopes.arena.scopes.size) : a.Keeps s s₁ := by
  intro i hge hlt
  rw [h i hge (Nat.lt_of_lt_of_le hlt hgrows.size)]
  refine hgrows.scope i hlt ?_
  rintro rfl
  exact Nat.not_lt.mpr hge (hinto i rfl)

end Arena.Keeps

/-! ## Parts of values -/

section Parts

open DecodeM

variable {s s' : DecodeState}

lemma DecodeState.MovedTo.stand {position : ℕ} (h : s.MovedTo position s') :
    s'.stand = { s.stand with position } := by
  rw [DecodeState.stand, h.scopes, h.cursor.position]
  rfl

/-- An integer that has been read is one of its type. -/
lemma IntegerType.reads_of_read {t : IntegerType} {n : IntegerValue} (h : t.read s = .ok n s') :
    t.Reads s.cursor.data s.cursor.position n ∧ s.MovedTo (s.cursor.position + t.width) s' := by
  unfold IntegerType.read at h
  split at h
  · rename_i hsigned
    obtain ⟨value, s₁, hread, h⟩ := ok_of_bind h
    obtain ⟨c, hbits, rfl⟩ := of_read_ok hread
    cases h
    obtain ⟨hpositive, hwidth, rfl, hmoved⟩ := Cursor.of_readSigned_ok hbits
    have hbounds := signExtend_bounds hpositive hwidth
      (Cursor.bitsAt s.cursor.data s.cursor.position t.width t.order)
    refine ⟨⟨?_, ?_, ?_, rfl, rfl⟩, rfl, hmoved⟩
    · exact signExtend_emod hpositive hwidth (Cursor.bitsAt_lt _ _ _ _)
    · rw [minimum, if_pos hsigned]
      exact hbounds.1
    · rw [maximum, if_pos hsigned]
      exact hbounds.2
  · rename_i hunsigned
    obtain ⟨value, s₁, hread, h⟩ := ok_of_bind h
    obtain ⟨k, hnatural, rfl⟩ := ok_of_map hread
    obtain ⟨c, hbits, rfl⟩ := of_read_ok hnatural
    cases h
    obtain ⟨-, -, rfl, hmoved⟩ := Cursor.of_readUnsigned_ok hbits
    have hlt := Cursor.bitsAt_lt s.cursor.data s.cursor.position t.width t.order
    refine ⟨⟨?_, ?_, ?_, rfl, rfl⟩, rfl, hmoved⟩
    · exact Int.emod_eq_of_lt (Int.natCast_nonneg _) (Int.ofNat_lt.mpr hlt)
    · rw [minimum, if_neg hunsigned]
      exact Int.natCast_nonneg _
    · rw [maximum, if_neg hunsigned]
      exact Int.le_sub_one_of_lt (Int.ofNat_lt.mpr hlt)

lemma of_readText {length : ℕ} {text : String} (h : readText length s = .ok text s') :
    s.cursor.position % 8 = 0 ∧
      text = textOfBytes (Cursor.bytesBetween s.cursor.data (s.cursor.position / 8)
        (s.cursor.position / 8 + length)) ∧
      s.MovedTo (s.cursor.position + 8 * length) s' := by
  obtain ⟨bytes, hread, rfl⟩ := ok_of_map h
  obtain ⟨c, hbytes, rfl⟩ := of_read_ok hread
  obtain ⟨haligned, rfl, hmoved⟩ := Cursor.of_readBytes_ok hbytes
  exact ⟨haligned, rfl, rfl, hmoved⟩

lemma zero_notMem_textOfBytes (bytes : List UInt8) : '\x00' ∉ (textOfBytes bytes).toList := by
  refine Utf8.zero_notMem_decode fun hmem => ?_
  have hall := List.all_eq_true.mp (List.all_takeWhile (l := bytes) (p := (· ≠ 0)))
  exact of_decide_eq_true (hall 0 hmem) rfl

lemma of_readString {text : String} (h : readString s = .ok text s') :
    ∃ bytes, text = Utf8.decode bytes ∧ ZeroTerminated s.cursor.data s.cursor.position bytes ∧
      s.MovedTo (s.cursor.position + 8 * (bytes.length + 1)) s' := by
  obtain ⟨bytes, hread, rfl⟩ := ok_of_map h
  obtain ⟨c, hbytes, rfl⟩ := of_read_ok hread
  obtain ⟨haligned, hnonzero, hbetween, hzero, hmoved⟩ := Cursor.of_readZeroTerminated_ok hbytes
  exact ⟨bytes, rfl, ⟨haligned, hnonzero, hbetween, hzero⟩, rfl, hmoved⟩

lemma of_checkLength {limit length : ℕ} {field : String}
    (h : checkLength limit field length s = .ok () s') : length ≤ limit ∧ s' = s := by
  unfold checkLength at h
  split at h
  · cases h
  · rename_i hle
    cases h
    exact ⟨Nat.le_of_not_lt hle, rfl⟩

/-- The length of a sequence is what its path leads to. -/
lemma of_sequenceLength {scope : ScopeId} {path : FieldPath} {field : String} {length : ℕ}
    (h : sequenceLength scope path field s = .ok length s') :
    ∃ found, s.scopes.resolve? scope path = some found ∧ found.unsigned? = some length ∧ s' = s := by
  rw [sequenceLength, get_bind_apply] at h
  cases hfound : s.scopes.resolve? scope path with
  | none => rw [hfound] at h; cases h
  | some found =>
    rw [hfound] at h
    dsimp only at h
    cases hlength : found.unsigned? with
    | none => rw [hlength] at h; cases h
    | some number =>
      rw [hlength] at h
      cases h
      exact ⟨found, rfl, hlength, rfl⟩

/-- The alternative of a variant is what its tag selects. -/
lemma of_selectedName {scope : ScopeId} {path : FieldPath} {field selection : String}
    (h : selectedName scope path field s = .ok selection s') :
    ∃ found, s.scopes.resolve? scope path = some found ∧ found.selection? = some selection ∧
      s' = s := by
  rw [selectedName, get_bind_apply] at h
  cases hfound : s.scopes.resolve? scope path with
  | none => rw [hfound] at h; cases h
  | some found =>
    rw [hfound] at h
    dsimp only at h
    have hselection : found.selection? = some selection ∧ s' = s := by
      unfold Field.selection?
      cases hvalue : found.value with
      | enum n label =>
        rw [hvalue] at h
        cases label with
        | none => cases h
        | some label =>
          cases h
          exact ⟨rfl, rfl⟩
      | text text =>
        rw [hvalue] at h
        cases h
        exact ⟨rfl, rfl⟩
      | _ =>
        rw [hvalue] at h
        cases h
    exact ⟨found, rfl, hselection⟩

end Parts

/-! ## Values -/

namespace FieldType

open DecodeM

section Elements

variable {limit : ℕ} {data : ByteArray} {a : Arena} {element : FieldType} {scope : ScopeId}

/-- Elements conform if each of them does. -/
lemma eachConforms_of_collectFrom {step : ℕ → DecodeM Field}
    (hgrows : ∀ index, (step index).Grows none)
    (hstep : ∀ {index : ℕ} {s s' : DecodeState} {f : Field}, step index s = .ok f s' →
      s.cursor.data = data → a.Keeps s s' →
        FieldConforms limit data a s.stand element scope (toString index) f s'.stand)
    {index : ℕ} {before elements : List Field} {count : ℕ} {s s' : DecodeState}
    (h : collectFrom step index before count s = .ok elements s') (hdata : s.cursor.data = data)
    (hkeeps : a.Keeps s s') :
    ∃ rest, elements = before.reverse ++ rest ∧ rest.length = count ∧
      EachConforms limit data a s.stand element scope index rest s'.stand := by
  induction count generalizing index before s with
  | zero =>
    cases h
    exact ⟨[], (List.append_nil _).symm, rfl, .nil⟩
  | succ count ih =>
    rw [collectFrom] at h
    obtain ⟨f, s₁, hfirst, hrest⟩ := ok_of_bind h
    have hgrows₁ := (hgrows index).of_ok hfirst
    have hgrows' := (collectFrom_leads hgrows _ _ _).of_ok hrest
    have hdata₁ := hgrows₁.cursor.data.trans hdata
    obtain ⟨rest, rfl, rfl, hconform⟩ := ih hrest hdata₁ (hkeeps.later hgrows₁.size)
    have hfield := hstep hfirst hdata (hkeeps.earlier hgrows' fun _ hnone => by cases hnone)
    refine ⟨f :: rest, ?_, rfl, .cons hfield hconform⟩
    rw [List.reverse_cons, List.append_assoc, List.singleton_append]

/-- The elements of an array or a sequence conform. -/
lemma elementsConform_of_decode {collect : List Field → Value} {decodeElement : String → DecodeM Field}
    (hgrows : ∀ name, (decodeElement name).Grows none)
    (helement : ∀ {name : String} {s s' : DecodeState} {f : Field}, decodeElement name s = .ok f s' →
      s.cursor.data = data → a.Keeps s s' →
        FieldConforms limit data a s.stand element scope name f s'.stand)
    {length : ℕ} {s s' : DecodeState} {v : Value}
    (h : (if element.isCharacter then Value.text <$> readText length
      else collect <$> collectElements length decodeElement) s = .ok v s')
    (hdata : s.cursor.data = data) (hkeeps : a.Keeps s s') :
    ElementsConform limit data a s.stand element scope length collect v s'.stand := by
  split at h
  · rename_i hcharacter
    obtain ⟨text, hread, rfl⟩ := ok_of_map h
    obtain ⟨haligned, htext, hmoved⟩ := of_readText hread
    rw [hmoved.stand]
    rw [hdata] at htext
    refine .text hcharacter haligned htext ?_
    rw [htext]
    exact zero_notMem_textOfBytes _
  · rename_i hcharacter
    obtain ⟨elements, hcollect, rfl⟩ := ok_of_map h
    obtain ⟨rest, heq, rfl, heach⟩ := eachConforms_of_collectFrom
      (fun index => hgrows (toString index)) helement hcollect hdata hkeeps
    obtain rfl : elements = rest := heq
    exact .values (Bool.eq_false_iff.mpr hcharacter) heach

/-- A field conforms if its value does. -/
lemma fieldConforms_of_named {t : FieldType} {name : String}
    (hvalue : ∀ {s s' : DecodeState} {v : Value}, decodeValue limit t scope name s = .ok v s' →
      s.cursor.data = data → a.Keeps s s' → Conforms limit data a s.stand t scope name v s'.stand)
    {s s' : DecodeState} {f : Field}
    (h : t.named name (decodeValue limit t scope name) s = .ok f s') (hdata : s.cursor.data = data)
    (hkeeps : a.Keeps s s') : FieldConforms limit data a s.stand t scope name f s'.stand := by
  obtain ⟨s₁, halign, hdecode, hname, htype⟩ := of_named_ok h
  have hmoved := movedTo_of_align halign
  have hsize : s.scopes.arena.scopes.size = s₁.scopes.arena.scopes.size := by rw [hmoved.scopes]
  have hconforms := hvalue hdecode (hmoved.cursor.data.trans hdata)
    (hkeeps.later (Nat.le_of_eq hsize))
  rw [hmoved.stand] at hconforms
  exact .mk hname htype hconforms

end Elements

mutual

/-- **A decoded value conforms to its type**, in any arena that keeps its scopes. -/
theorem conforms_of_decodeValue (limit : ℕ) (data : ByteArray) (a : Arena) (t : FieldType)
    (scope : ScopeId) (name : String) {s s' : DecodeState} {v : Value}
    (h : decodeValue limit t scope name s = .ok v s') (hdata : s.cursor.data = data)
    (hkeeps : a.Keeps s s') :
    Conforms limit data a s.stand t scope name v s'.stand := by
  match t with
  | .integer t =>
    rw [decodeValue] at h
    obtain ⟨n, hread, rfl⟩ := ok_of_map h
    obtain ⟨hreads, hmoved⟩ := t.reads_of_read hread
    rw [hdata] at hreads
    rw [hmoved.stand]
    exact .integer hreads
  | .float t =>
    rw [decodeValue] at h
    obtain ⟨x, hread, rfl⟩ := ok_of_map h
    obtain ⟨word, hword, rfl⟩ := ok_of_map hread
    obtain ⟨c, hbits, hs'⟩ := of_read_ok hword
    obtain ⟨-, -, rfl, hcursor⟩ := Cursor.of_readUnsigned_ok hbits
    have hmoved : s.MovedTo (s.cursor.position + t.width) s' := by
      rw [hs']
      exact ⟨rfl, hcursor⟩
    rw [hmoved.stand, hdata]
    exact .float
  | .string encoding =>
    rw [decodeValue] at h
    obtain ⟨text, hread, rfl⟩ := ok_of_map h
    obtain ⟨bytes, rfl, hterminated, hmoved⟩ := of_readString hread
    rw [hdata] at hterminated
    rw [hmoved.stand]
    exact .string hterminated
  | .enum t =>
    rw [decodeValue] at h
    obtain ⟨n, s₁, hread, hreturn⟩ := ok_of_bind h
    cases hreturn
    obtain ⟨hreads, hmoved⟩ := t.container.reads_of_read hread
    rw [hdata] at hreads
    rw [hmoved.stand]
    exact .enum hreads
  | .array element length =>
    rw [decodeValue] at h
    obtain ⟨_, s₁, hlimit, hcontents⟩ := ok_of_bind h
    obtain ⟨hle, rfl⟩ := of_checkLength hlimit
    refine .array hle (elementsConform_of_decode (fun index => ?_) (fun helement => ?_) hcontents
      hdata hkeeps)
    · exact named_grows element index (decodeValue_grows limit element scope index)
    · exact fieldConforms_of_named (conforms_of_decodeValue limit data a element scope _) helement
  | .sequence element path =>
    rw [decodeValue] at h
    obtain ⟨length, s₁, hlength, hthere⟩ := ok_of_bind h
    obtain ⟨found, hresolved, hunsigned, rfl⟩ := of_sequenceLength hlength
    obtain ⟨_, s₂, hlimit, hcontents⟩ := ok_of_bind hthere
    obtain ⟨hle, rfl⟩ := of_checkLength hlimit
    refine .sequence hresolved hunsigned hle (elementsConform_of_decode (fun index => ?_)
      (fun helement => ?_) hcontents hdata hkeeps)
    · exact named_grows element index (decodeValue_grows limit element scope index)
    · exact fieldConforms_of_named (conforms_of_decodeValue limit data a element scope _) helement
  | .struct least members =>
    rw [decodeValue] at h
    obtain ⟨inner, s₁, hopen, hthere⟩ := ok_of_bind h
    obtain ⟨_, s₂, hmembers, hreturn⟩ := ok_of_bind hthere
    cases hreturn
    obtain ⟨rfl, rfl⟩ : inner = s.scopes.nextScope ∧
        s₁ = { s with scopes := s.scopes.opened scope name } := by
      cases hopen
      exact ⟨rfl, rfl⟩
    have hsize := s.scopes.nextScope_lt_opened scope name
    have hgrows := (decodeFields_grows limit members _).of_ok hmembers
    obtain ⟨fs, hfs, hconform⟩ := fieldsConform_of_decodeFields limit data a members _ hmembers hdata
      hsize (hkeeps.later (Nat.le_of_lt hsize))
    have hkept : a.fields s.scopes.nextScope = s'.scopes.arena.fields s.scopes.nextScope :=
      hkeeps.fields_eq (Nat.le_refl _) (Nat.lt_of_lt_of_le hsize hgrows.size)
    rw [ScopeChain.fields_opened, List.nil_append, ← hkept] at hfs
    rw [← hfs] at hconform
    exact .struct hconform
  | .variant none _ =>
    rw [decodeValue] at h
    cases h
  | .variant (some tag) alternatives =>
    rw [decodeValue] at h
    obtain ⟨selection, s₁, hselection, hthere⟩ := ok_of_bind h
    obtain ⟨found, hresolved, hselects, rfl⟩ := of_selectedName hselection
    obtain ⟨inner, halternative, rfl⟩ := ok_of_map hthere
    obtain ⟨t, hlookup, hconforms⟩ := fieldConforms_of_decodeAlternative limit data a alternatives
      selection scope name halternative hdata hkeeps
    exact .variant hresolved hselects hlookup hconforms
termination_by structural t

/-- The fields that are decoded for members conform, and they stand behind those that were there. -/
theorem fieldsConform_of_decodeFields (limit : ℕ) (data : ByteArray) (a : Arena)
    (members : List (String × FieldType)) (scope : ScopeId) {s s' : DecodeState}
    (h : decodeFields limit members scope s = .ok () s') (hdata : s.cursor.data = data)
    (hscope : scope < s.scopes.arena.scopes.size) (hkeeps : a.Keeps s s') :
    ∃ fs, s'.scopes.arena.fields scope = s.scopes.arena.fields scope ++ fs ∧
      FieldsConform limit data a s.stand members scope fs s'.stand := by
  match members with
  | [] =>
    cases h
    exact ⟨[], (List.append_nil _).symm, .nil⟩
  | (name, t) :: rest =>
    rw [decodeFields] at h
    obtain ⟨f, s₁, hfield, hthere⟩ := ok_of_bind h
    obtain ⟨_, s₂, hbind, hrest⟩ := ok_of_bind hthere
    have hgrows := (named_grows t name (decodeValue_grows limit t scope name)).of_ok hfield
    have hbound := (grows_bindField scope f).of_ok hbind
    have hmore := (decodeFields_grows limit rest scope).of_ok hrest
    have hscope₁ := Nat.lt_of_lt_of_le hscope hgrows.size
    have hscope₂ := Nat.lt_of_lt_of_le hscope₁ hbound.size
    have hdata₂ := hbound.cursor.data.trans (hgrows.cursor.data.trans hdata)
    obtain ⟨fs, hfs, hothers⟩ := fieldsConform_of_decodeFields limit data a rest scope hrest hdata₂
      hscope₂ (hkeeps.later (Nat.le_trans hgrows.size hbound.size))
    have hfirst := fieldConforms_of_named (conforms_of_decodeValue limit data a t scope name) hfield
      hdata (hkeeps.earlier (hbound.trans hmore) fun _ hinto => by cases hinto; exact hscope)
    cases hbind
    refine ⟨f :: fs, ?_, .cons hfirst hothers⟩
    rw [hfs, Arena.fields_insert_self hscope₁,
      Arena.fields_congr (hgrows.scope scope hscope (by simp)), List.append_assoc]
    rfl
termination_by structural members

theorem fieldConforms_of_decodeAlternative (limit : ℕ) (data : ByteArray) (a : Arena)
    (alternatives : List (String × FieldType)) (selection : String) (scope : ScopeId) (name : String)
    {s s' : DecodeState} {f : Field}
    (h : decodeAlternative limit alternatives selection scope name s = .ok f s')
    (hdata : s.cursor.data = data) (hkeeps : a.Keeps s s') :
    ∃ t, alternatives.lookup selection = some t ∧
      FieldConforms limit data a s.stand t scope selection f s'.stand := by
  match alternatives with
  | [] => cases h
  | (alternative, t) :: rest =>
    rw [decodeAlternative] at h
    split at h
    · rename_i heq
      subst heq
      refine ⟨t, List.lookup_cons_self, ?_⟩
      exact fieldConforms_of_named (conforms_of_decodeValue limit data a t scope alternative) h hdata
        hkeeps
    · rename_i hne
      obtain ⟨u, hlookup, hconforms⟩ := fieldConforms_of_decodeAlternative limit data a rest selection
        scope name h hdata hkeeps
      refine ⟨u, ?_, hconforms⟩
      rw [List.lookup_cons, beq_false_of_ne (Ne.symm hne)]
      exact hlookup
termination_by structural alternatives

end

/-- The fields that are decoded into an empty scope conform. -/
lemma fieldsConform_of_empty {limit : ℕ} {a : Arena} {members : List (String × FieldType)}
    {scope : ScopeId} {s s' : DecodeState} (h : decodeFields limit members scope s = .ok () s')
    (hscope : scope < s.scopes.arena.scopes.size) (hempty : s.scopes.arena.fields scope = [])
    (hkeeps : a.Keeps s s') :
    FieldsConform limit s.cursor.data a s.stand members scope (s'.scopes.arena.fields scope)
      s'.stand := by
  obtain ⟨fs, hfs, hconform⟩ := fieldsConform_of_decodeFields limit _ a members scope h rfl hscope hkeeps
  rw [hempty, List.nil_append] at hfs
  rwa [hfs]

/-- The contents of a block are decoded into a scope that has been opened for it. -/
lemma of_decodeBlock_ok {limit : ℕ} {t : FieldType} {block : StaticScope} {scope : ScopeId}
    {s s' : DecodeState} (h : t.decodeBlock limit block s = .ok scope s') :
    scope = s.scopes.nextScope ∧
      t.decodeContents limit block scope { s with scopes := s.scopes.openedBlock block } = .ok () s' := by
  obtain ⟨root, s₁, hopen, hthere⟩ := ok_of_bind h
  obtain ⟨_, s₂, hcontents, hreturn⟩ := ok_of_bind hthere
  cases hreturn
  cases hopen
  exact ⟨rfl, hcontents⟩

/-- The fields of a block conform, behind the padding before the block. -/
lemma fieldsConform_of_decodeBlock {limit : ℕ} {a : Arena} {least : ℕ}
    {members : List (String × FieldType)} {block : StaticScope} {scope : ScopeId} {s s' : DecodeState}
    (h : (FieldType.struct least members).decodeBlock limit block s = .ok scope s')
    (hkeeps : a.Keeps s s') :
    FieldsConform limit s.cursor.data a
      ⟨s.scopes.openedBlock block, alignUp (FieldType.struct least members).alignment s.cursor.position⟩
      members scope (a.fields scope) s'.stand := by
  obtain ⟨rfl, hcontents⟩ := of_decodeBlock_ok h
  have hopened := s.scopes.nextScope_lt_openedBlock block
  have hempty := s.scopes.fields_openedBlock block
  have hgrows := ((FieldType.struct least members).decodeContents_grows limit block _).of_ok hcontents
  have hkept : a.fields s.scopes.nextScope = s'.scopes.arena.fields s.scopes.nextScope :=
    hkeeps.fields_eq (Nat.le_refl _) (Nat.lt_of_lt_of_le hopened hgrows.size)
  obtain ⟨_, s₁, halign, hdecode⟩ := ok_of_bind hcontents
  obtain ⟨hscopes, hcursor⟩ := movedTo_of_align halign
  have hstand : s₁.stand =
      ⟨s.scopes.openedBlock block, alignUp (FieldType.struct least members).alignment s.cursor.position⟩ := by
    rw [DecodeState.stand, hscopes, hcursor.position]
  rw [← show s₁.scopes = s.scopes.openedBlock block from hscopes] at hopened hempty
  have hfields := fieldsConform_of_empty hdecode hopened hempty (hkeeps.later (Nat.le_of_lt hopened))
  rwa [← hkept, hstand, hcursor.data] at hfields

/-- **Whatever has been decoded conforms to its type**, and it goes on conforming as long as the scopes
that have been opened for it stay as they are. -/
theorem conforms_of_decode {limit : ℕ} {t : FieldType} {scope : ScopeId} {name : String}
    {s s' : DecodeState} {f : Field} (h : t.decode limit scope name s = .ok f s') {a : Arena}
    (hkeeps : a.Keeps s s') :
    FieldConforms limit s.cursor.data a s.stand t scope name f s'.stand :=
  fieldConforms_of_named (conforms_of_decodeValue limit _ a t scope name) h rfl hkeeps

/-- A number of bytes and that many bytes. -/
def countedBytes : FieldType :=
  let byte : FieldType := .integer (.plain 8 false .little)
  .struct 1 [("n", byte), ("xs", .sequence byte ⟨.relative 0, "n", []⟩)]

/-- The start of the payload of an event. -/
def payloadStart (bytes : List UInt8) : DecodeState where
  cursor := .ofBytes ⟨bytes.toArray⟩
  scopes := { arena := (Arena.empty.openBlock .eventFields).2, outer := [] }

theorem conforms_of_decode_countedBytes : ∃ f s',
    countedBytes.decode 10 0 "e" (payloadStart [2, 5, 6]) = .ok f s' ∧
      s'.scopes.arena.Keeps (payloadStart [2, 5, 6]) s' ∧
      FieldConforms 10 ⟨#[2, 5, 6]⟩ s'.scopes.arena (payloadStart [2, 5, 6]).stand countedBytes 0 "e" f
        s'.stand := by
  have hsucceeds : (match countedBytes.decode 10 0 "e" (payloadStart [2, 5, 6]) with
      | .ok _ _ => true
      | .error _ _ => false) = true := by decide +kernel
  split at hsucceeds
  · rename_i f s' h
    have hkeeps : s'.scopes.arena.Keeps (payloadStart [2, 5, 6]) s' := fun _ _ _ => rfl
    exact ⟨f, s', h, hkeeps, conforms_of_decode h hkeeps⟩
  · cases hsucceeds

end FieldType

end CommonTrace
