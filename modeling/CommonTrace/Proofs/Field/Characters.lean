import CommonTrace.Proofs.Field.RoundTrip
import CommonTrace.Proofs.Schema.Steps
import CommonTrace.Proofs.Schema.Trees
import CommonTrace.Proofs.Schema.WellFormed
import CommonTrace.Schema.OfTree

/-!
# Texts and their characters

An array or a sequence of characters is read as a text, in one piece.  The same declaration without the
encoding is read element by element, and there is padding before each element.  One would expect the text
to be made of the bytes of these elements.  It is, as long as there is no padding between them.

An integer is a character if its alignment is a multiple of eight bits, and that may be sixteen or more.
Then the characters stand apart (`IntegerType.spread` says where the last one ends), while the text takes
the bytes next to each other.  `FieldType.text_agrees_iff` says that the two ways of reading agree unless
this happens, and the metadata `wideText` shows that it happens.
-/

namespace CommonTrace

/-! ## How many elements there are -/

/-- Where the number of elements comes from. -/
inductive Extent where
  /-- It is declared. -/
  | fixed (length : ℕ)
  /-- Another field says it. -/
  | counted (path : FieldPath)

namespace Extent

/-- The array or the sequence of elements. -/
def of : Extent → FieldType → FieldType
  | .fixed length, element => .array element length
  | .counted path, element => .sequence element path

/-- The value that elements make up. -/
def collect : Extent → List Field → Value
  | .fixed _ => .array
  | .counted _ => .sequence

/-- The number of elements that is found from a scope. -/
def length? : Extent → ScopeChain → ScopeId → Option ℕ
  | .fixed length, _, _ => some length
  | .counted path, chain, scope => (chain.resolve? scope path).bind Field.unsigned?

/-- Finds the number of elements of a field. -/
def length (scope : ScopeId) (name : String) : Extent → DecodeM ℕ
  | .fixed length => pure length
  | .counted path => sequenceLength scope path name

variable {extent : Extent} {scope : ScopeId} {name : String} {s s' : DecodeState} {n : ℕ}

lemma alignment_of (extent : Extent) (element : FieldType) :
    (extent.of element).alignment = element.alignment := by
  cases extent <;> rw [of, FieldType.alignment]

lemma of_length (h : extent.length scope name s = .ok n s') :
    extent.length? s.scopes scope = some n ∧ s' = s := by
  cases extent with
  | fixed length =>
    cases h
    exact ⟨rfl, rfl⟩
  | counted path =>
    obtain ⟨found, hresolved, hunsigned, rfl⟩ := of_sequenceLength h
    exact ⟨by rw [length?, hresolved, Option.bind_some, hunsigned], rfl⟩

/-- What is done before the elements are read, which gives their number. -/
def announce (extent : Extent) (alignment limit : ℕ) (scope : ScopeId) (name : String) :
    DecodeM ℕ := do
  DecodeM.align alignment
  let n ← extent.length scope name
  checkLength limit name n
  return n

lemma of_announce {alignment limit : ℕ}
    (h : extent.announce alignment limit scope name s = .ok n s') :
    extent.length? s.scopes scope = some n ∧
      s.MovedTo (alignUp alignment s.cursor.position) s' := by
  obtain ⟨_, s₁, halign, h⟩ := DecodeM.ok_of_bind h
  obtain ⟨m, s₂, hlength, h⟩ := DecodeM.ok_of_bind h
  obtain ⟨_, s₃, hlimit, h⟩ := DecodeM.ok_of_bind h
  cases h
  obtain ⟨-, rfl⟩ := of_checkLength hlimit
  obtain ⟨hfound, rfl⟩ := of_length hlength
  have hmoved := DecodeM.movedTo_of_align halign
  exact ⟨hmoved.scopes ▸ hfound, hmoved⟩

/-- Reads so many elements, or the text in their place. -/
def contents (extent : Extent) (limit : ℕ) (element : FieldType) (scope : ScopeId) (n : ℕ) :
    DecodeM Value :=
  if element.isCharacter then Value.text <$> readText n
  else extent.collect <$> collectElements n fun index =>
    element.named index (element.decodeValue limit scope index)

/-- Reads an array or a sequence of so many elements, which stand at the cursor. -/
def field (extent : Extent) (limit : ℕ) (element : FieldType) (scope : ScopeId) (name : String)
    (n : ℕ) : DecodeM Field := do
  let value ← extent.contents limit element scope n
  return { name, type := extent.of element, value }

/-- How an array and a sequence are read. -/
lemma decode_of (extent : Extent) (limit : ℕ) (element : FieldType) (scope : ScopeId)
    (name : String) :
    (extent.of element).decode limit scope name =
      extent.announce element.alignment limit scope name >>=
        extent.field limit element scope name := by
  rw [FieldType.decode, FieldType.named, alignment_of]
  cases extent with
  | fixed count =>
    rw [of, FieldType.decodeValue]
    simp only [announce, length, bind_assoc, pure_bind]
    rfl
  | counted path =>
    rw [of, FieldType.decodeValue]
    simp only [announce, length, bind_assoc, pure_bind]
    rfl

end Extent

/-! ## Characters as numbers -/

/-- The same integers without an encoding, so that they are numbers and no characters. -/
def IntegerType.unencoded (t : IntegerType) : IntegerType :=
  { t with encoding := .none }

/-- The byte that an integer of eight bits has been read from. -/
def Field.byte? (f : Field) : Option UInt8 :=
  match f.value with
  | .integer n => some (UInt8.ofNat (n.value % 256).toNat)
  | _ => none

/-- **A text agrees with elements** that are read in its stead: both are there or neither is.  If they
are, both decodings go on from the same state, and the text is made of the bytes of the elements up to the
first zero byte. -/
inductive TextAgrees (extent : Extent) :
    EStateM.Result DecodeError DecodeState Field → EStateM.Result DecodeError DecodeState Field → Prop
  | read {f g : Field} {s : DecodeState} {elements : List Field} {bytes : List UInt8}
      (text : f.value = .text (textOfBytes bytes)) (collected : g.value = extent.collect elements)
      (spelled : elements.map Field.byte? = bytes.map some) : TextAgrees extent (.ok f s) (.ok g s)
  | failed {e e' : DecodeError} {s s' : DecodeState} : TextAgrees extent (.error e s) (.error e' s')

/-- Where a decoding comes to an end. -/
def endOf? : EStateM.Result DecodeError DecodeState Field → Option ℕ
  | .ok _ s => some s.cursor.position
  | .error _ _ => none

lemma TextAgrees.end_eq {extent : Extent} {x y : EStateM.Result DecodeError DecodeState Field}
    (h : TextAgrees extent x y) : endOf? x = endOf? y := by
  cases h with
  | read => rfl
  | failed => rfl

/-- Reads one of several integers. -/
def IntegerType.element (t : IntegerType) (limit : ℕ) (scope : ScopeId) (index : ℕ) :
    DecodeM Field :=
  (FieldType.integer t).named (toString index)
    ((FieldType.integer t).decodeValue limit scope (toString index))

/-- Where characters end that are read one after the other, with padding before each of them. -/
def IntegerType.spread (t : IntegerType) (position : ℕ) : ℕ → ℕ
  | 0 => position
  | count + 1 => alignUp t.alignment position + t.alignment * count + 8

/-- Whether there is padding between so many characters. -/
def IntegerType.Gapped (t : IntegerType) (count : ℕ) : Prop :=
  8 < t.alignment ∧ 2 ≤ count

section Characters

open DecodeM

variable {t : IntegerType} {limit : ℕ} {scope : ScopeId} {s s' : DecodeState}

lemma DecodeState.MovedTo.trans {s₁ : DecodeState} {p q : ℕ} (h₁ : s.MovedTo p s₁)
    (h₂ : s₁.MovedTo q s') : s.MovedTo q s' where
  scopes := h₂.scopes.trans h₁.scopes
  cursor := ⟨h₂.cursor.data.trans h₁.cursor.data, h₂.cursor.limit.trans h₁.cursor.limit,
    h₂.cursor.position⟩

/-- Where a decoding moves to says all about the state it reaches. -/
lemma DecodeState.MovedTo.unique {s'' : DecodeState} {p : ℕ} (h : s.MovedTo p s')
    (h' : s.MovedTo p s'') : s' = s'' := by
  obtain ⟨⟨data, limit, position, _, _⟩, scopes⟩ := s'
  obtain ⟨⟨data', limit', position', _, _⟩, scopes'⟩ := s''
  obtain ⟨rfl, rfl, rfl, rfl⟩ : scopes = scopes' ∧ data = data' ∧ limit = limit' ∧
      position = position' :=
    ⟨h.scopes.trans h'.scopes.symm, h.cursor.data.trans h'.cursor.data.symm,
      h.cursor.limit.trans h'.cursor.limit.symm, h.cursor.position.trans h'.cursor.position.symm⟩
  rfl

lemma DecodeState.MovedTo.le_limit {p : ℕ} (h : s.MovedTo p s') : p ≤ s.cursor.limit := by
  rw [← h.cursor.position, ← h.cursor.limit]
  exact s'.cursor.position_le

/-- What is asked of an integer that may be a character. -/
structure IntegerType.IsByte (t : IntegerType) : Prop where
  width : t.width = 8
  alignment : t.alignment % 8 = 0
  le_alignment : 8 ≤ t.alignment

lemma IntegerType.WellFormed.isByte (h : t.WellFormed) (hcharacter : t.isCharacter = true) :
    t.IsByte := by
  simp only [isCharacter, Bool.and_eq_true, decide_eq_true_eq] at hcharacter
  obtain ⟨⟨-, hwidth⟩, hmod⟩ := hcharacter
  obtain ⟨k, hk⟩ := h.alignment
  have hpositive := twoPow_pos k
  exact ⟨hwidth, hmod, by omega⟩

namespace IntegerType.IsByte

lemma alignUp_mod_eight (h : t.IsByte) (position : ℕ) :
    alignUp t.alignment position % 8 = 0 := by
  have hmod := alignUp_mod t.alignment position (by have := h.le_alignment; omega)
  exact Nat.mod_eq_zero_of_dvd
    (Nat.dvd_trans (Nat.dvd_of_mod_eq_zero h.alignment) (Nat.dvd_of_mod_eq_zero hmod))

/-- The next character starts one alignment further. -/
lemma alignUp_add_eight (h : t.IsByte) {position : ℕ} (hposition : position % t.alignment = 0) :
    alignUp t.alignment (position + 8) = position + t.alignment := by
  have hle := h.le_alignment
  rcases Nat.eq_or_lt_of_le hle with heq | hlt
  · rw [← heq] at hposition ⊢
    exact alignUp_of_mod_eq_zero (by omega)
  · have hmod : (position + 8) % t.alignment = 8 := by
      rw [Nat.add_mod, hposition, Nat.zero_add, Nat.mod_mod, Nat.mod_eq_of_lt hlt]
    rw [alignUp_of_mod_ne_zero (by omega) (by omega), hmod]
    omega

lemma spread_succ (h : t.IsByte) (position count : ℕ) :
    t.spread (alignUp t.alignment position + 8) count = t.spread position (count + 1) := by
  have hmod := alignUp_mod t.alignment position (by have := h.le_alignment; omega)
  cases count with
  | zero => rw [spread, spread, Nat.mul_zero, Nat.add_zero]
  | succ count =>
    rw [spread, spread, h.alignUp_add_eight hmod, Nat.mul_succ]
    omega

lemma le_spread (h : t.IsByte) {position : ℕ} (hposition : position % t.alignment = 0)
    (count : ℕ) : position + 8 * count ≤ t.spread position count := by
  cases count with
  | zero => exact Nat.le_refl _
  | succ count =>
    have hle := Nat.mul_le_mul_right count h.le_alignment
    rw [spread, alignUp_of_mod_eq_zero hposition]
    omega

/-- Characters lie next to each other if there is no padding between them. -/
lemma spread_eq_iff (h : t.IsByte) {position : ℕ} (hposition : position % t.alignment = 0)
    (count : ℕ) : t.spread position count = position + 8 * count ↔ ¬t.Gapped count := by
  have hle := h.le_alignment
  unfold Gapped
  cases count with
  | zero => simp [spread]
  | succ count =>
    rw [spread, alignUp_of_mod_eq_zero hposition]
    constructor
    · rintro heq ⟨hlt, hcount⟩
      have hgap : 8 * count < t.alignment * count := Nat.mul_lt_mul_of_pos_right hlt (by omega)
      omega
    · intro hnone
      rcases Nat.eq_or_lt_of_le hle with heq | hlt
      · rw [← heq]
        omega
      · obtain rfl : count = 0 := by omega
        rw [Nat.mul_zero]

/-! ## Reading the characters one by one -/

lemma of_element (h : t.IsByte) {index : String} {f : Field}
    (hok : (FieldType.integer t).named index ((FieldType.integer t).decodeValue limit scope index) s =
      .ok f s') :
    f.byte? = s.cursor.data[alignUp t.alignment s.cursor.position / 8]? ∧
      s.MovedTo (alignUp t.alignment s.cursor.position + 8) s' := by
  obtain ⟨s₁, halign, hvalue, -, -⟩ := FieldType.of_named_ok hok
  rw [FieldType.decodeValue] at hvalue
  obtain ⟨n, hread, hn⟩ := ok_of_map hvalue
  have hmoved₁ := movedTo_of_align halign
  rw [FieldType.alignment] at hmoved₁
  obtain ⟨hreads, hmoved⟩ := t.reads_of_read hread
  rw [h.width, hmoved₁.cursor.position] at hmoved
  refine ⟨?_, hmoved₁.trans hmoved⟩
  have hbits := hreads.bits
  rw [h.width, hmoved₁.cursor.position, hmoved₁.cursor.data] at hbits
  have hroom : alignUp t.alignment s.cursor.position + 8 ≤ 8 * s.cursor.data.size :=
    Nat.le_trans (hmoved₁.trans hmoved).le_limit s.cursor.limit_le
  have hthere := getElem?_pos s.cursor.data (alignUp t.alignment s.cursor.position / 8) (by omega)
  rw [Cursor.bitsAt_byte (h.alignUp_mod_eight _) hthere] at hbits
  have hbyte : (n.value % 256).toNat = (s.cursor.data[alignUp t.alignment s.cursor.position / 8]).toNat :=
    (congrArg Int.toNat hbits).trans (Int.toNat_natCast _)
  rw [hthere, Field.byte?, ← hn]
  dsimp only
  rw [hbyte, UInt8.ofNat_toNat]

lemma exists_element (h : t.IsByte) (limit : ℕ) (scope : ScopeId) (index : String)
    (hroom : alignUp t.alignment s.cursor.position + 8 ≤ s.cursor.limit) :
    ∃ f s', (FieldType.integer t).named index
      ((FieldType.integer t).decodeValue limit scope index) s = .ok f s' := by
  have hpadding : alignUp t.alignment s.cursor.position ≤ s.cursor.limit := by omega
  obtain ⟨c, halign, hmoved⟩ := Cursor.exists_align hpadding
  have hpadding : align (FieldType.integer t).alignment s = .ok () { s with cursor := c } := by
    refine read_of_ok ?_
    rw [FieldType.alignment, halign]
    rfl
  have hbits : c.position + t.width ≤ c.limit := by
    rw [hmoved.position, hmoved.limit, h.width]
    exact hroom
  have hwidth := h.width
  obtain ⟨n, s₂, hread⟩ : ∃ n s₂, t.read { s with cursor := c } = .ok n s₂ := by
    unfold IntegerType.read
    split
    · obtain ⟨c', hsigned, -⟩ := Cursor.exists_readSigned t.order (by omega) (by omega) hbits
      exact ⟨_, _, bind_of_ok (read_of_ok (s := { s with cursor := c }) hsigned) _⟩
    · obtain ⟨c', hunsigned, -⟩ := Cursor.exists_readUnsigned t.order (by omega) (by omega) hbits
      exact ⟨_, _, bind_of_ok
        (map_of_ok (read_of_ok (s := { s with cursor := c }) hunsigned) Int.ofNat) _⟩
  refine ⟨⟨index, .integer t, .integer n⟩, s₂, ?_⟩
  rw [FieldType.named, bind_of_ok hpadding, FieldType.decodeValue, bind_of_ok (map_of_ok hread _)]
  rfl

/-- The bytes of characters that have been read one by one stand one alignment apart. -/
lemma of_collectFrom (h : t.IsByte) {index count : ℕ} {before elements : List Field}
    (hok : collectFrom (t.element limit scope) index before count s = .ok elements s') :
    ∃ rest, elements = before.reverse ++ rest ∧
      rest.map Field.byte? = (List.range count).map (fun i =>
        s.cursor.data[(alignUp t.alignment s.cursor.position + t.alignment * i) / 8]?) ∧
      s.MovedTo (t.spread s.cursor.position count) s' := by
  induction count generalizing index before s with
  | zero =>
    cases hok
    exact ⟨[], (List.append_nil _).symm, rfl, rfl, rfl, rfl, rfl⟩
  | succ count ih =>
    rw [collectFrom] at hok
    obtain ⟨f, s₁, hfirst, hrest⟩ := ok_of_bind hok
    obtain ⟨hbyte, hmoved⟩ := h.of_element hfirst
    obtain ⟨rest, rfl, hbytes, hmoved'⟩ := ih hrest
    have hmod := alignUp_mod t.alignment s.cursor.position (by have := h.le_alignment; omega)
    rw [hmoved.cursor.position, hmoved.cursor.data, h.alignUp_add_eight hmod] at hbytes
    rw [hmoved.cursor.position, h.spread_succ] at hmoved'
    refine ⟨f :: rest, ?_, ?_, hmoved.trans hmoved'⟩
    · rw [List.reverse_cons, List.append_assoc, List.singleton_append]
    · rw [List.map_cons, hbyte, hbytes, List.range_succ_eq_map, List.map_cons, List.map_map,
        Nat.mul_zero, Nat.add_zero]
      refine congrArg _ (List.map_congr_left fun i _ => ?_)
      rw [Function.comp_apply, Nat.mul_succ, Nat.add_assoc, Nat.add_comm t.alignment]

lemma exists_collectFrom (h : t.IsByte) (limit : ℕ) (scope : ScopeId) (index : ℕ) (before : List Field)
    {count : ℕ}
    (hroom : t.spread s.cursor.position count ≤ s.cursor.limit) :
    ∃ elements s', collectFrom (t.element limit scope) index before count s = .ok elements s' := by
  induction count generalizing index before s with
  | zero => exact ⟨_, _, rfl⟩
  | succ count ih =>
    have hfirst : alignUp t.alignment s.cursor.position + 8 ≤ s.cursor.limit := by
      rw [spread] at hroom
      omega
    obtain ⟨f, s₁, hok⟩ := h.exists_element limit scope (toString index) hfirst
    obtain ⟨-, hmoved⟩ := h.of_element hok
    rw [← h.spread_succ, ← hmoved.cursor.position, ← hmoved.cursor.limit] at hroom
    obtain ⟨elements, s', hrest⟩ := ih (index + 1) (f :: before) hroom
    refine ⟨elements, s', ?_⟩
    rw [collectFrom, bind_of_ok (show t.element limit scope index s = _ from hok), hrest]

/-! ## Reading them in one piece -/

/-- The bytes of characters without padding between them lie next to each other. -/
lemma map_range_eq (h : t.IsByte) {position count : ℕ} (hposition : position % t.alignment = 0)
    (hgapped : ¬t.Gapped count) (hdata : position + 8 * count ≤ 8 * s.cursor.data.size) :
    (List.range count).map (fun i =>
        s.cursor.data[(alignUp t.alignment position + t.alignment * i) / 8]?) =
      (Cursor.bytesBetween s.cursor.data (position / 8) (position / 8 + count)).map some := by
  have hle := h.le_alignment
  rw [alignUp_of_mod_eq_zero hposition]
  apply List.ext_getElem?
  intro i
  rw [List.getElem?_map, List.getElem?_map, Cursor.getElem?_bytesBetween]
  rcases Nat.lt_or_ge i count with hlt | hge
  · have hindex : (position + t.alignment * i) / 8 = position / 8 + i := by
      unfold Gapped at hgapped
      rcases Nat.eq_or_lt_of_le hle with heq | hgt
      · rw [← heq]
        omega
      · obtain rfl : i = 0 := by omega
        rw [Nat.mul_zero, Nat.add_zero, Nat.add_zero]
    have hthere := getElem?_pos s.cursor.data (position / 8 + i) (by omega)
    rw [List.getElem?_range hlt, Option.map_some, hindex, if_pos (by omega), hthere, Option.map_some]
  · rw [if_neg (by omega), Option.map_none, List.getElem?_eq_none (by simpa using hge),
      Option.map_none]

variable (extent : Extent) (limit : ℕ) (scope : ScopeId) (n : ℕ) (s : DecodeState)

/-- A text is read if there is room for its bytes. -/
lemma text_of_contents (hcharacter : t.isCharacter = true) (haligned : s.cursor.position % 8 = 0) :
    (∃ s', extent.contents limit (.integer t) scope n s =
        .ok (.text (textOfBytes (Cursor.bytesBetween s.cursor.data (s.cursor.position / 8)
          (s.cursor.position / 8 + n)))) s' ∧
        s.MovedTo (s.cursor.position + 8 * n) s') ∨
      (∃ e s', extent.contents limit (.integer t) scope n s = .error e s') ∧
        s.cursor.limit < s.cursor.position + 8 * n := by
  rw [Extent.contents, FieldType.isCharacter, if_pos hcharacter]
  rcases Nat.lt_or_ge s.cursor.limit (s.cursor.position + 8 * n) with hlt | hge
  · right
    refine ⟨?_, hlt⟩
    cases hread : (Value.text <$> readText n) s with
    | error e s' => exact ⟨e, s', rfl⟩
    | ok value s' =>
      obtain ⟨text, htext, -⟩ := ok_of_map hread
      obtain ⟨-, -, hmoved⟩ := of_readText htext
      exact absurd hmoved.le_limit (Nat.not_le.mpr hlt)
  · left
    obtain ⟨c, hbytes, hmoved⟩ := Cursor.exists_readBytes haligned hge
    exact ⟨{ s with cursor := c }, map_of_ok (map_of_ok (read_of_ok hbytes) textOfBytes) Value.text,
      rfl, hmoved⟩

/-- Elements are read if there is room for them and the padding between them. -/
lemma elements_of_contents (h : t.IsByte) (hcharacter : t.isCharacter = false) :
    (∃ elements s', extent.contents limit (.integer t) scope n s = .ok (extent.collect elements) s' ∧
        elements.map Field.byte? = (List.range n).map (fun i =>
          s.cursor.data[(alignUp t.alignment s.cursor.position + t.alignment * i) / 8]?) ∧
        s.MovedTo (t.spread s.cursor.position n) s') ∨
      (∃ e s', extent.contents limit (.integer t) scope n s = .error e s') ∧
        s.cursor.limit < t.spread s.cursor.position n := by
  rw [Extent.contents, FieldType.isCharacter, hcharacter, if_neg Bool.false_ne_true]
  rcases Nat.lt_or_ge s.cursor.limit (t.spread s.cursor.position n) with hlt | hge
  · right
    refine ⟨?_, hlt⟩
    cases hcollect : (extent.collect <$> collectElements n fun index =>
        (FieldType.integer t).named index
          ((FieldType.integer t).decodeValue limit scope index)) s with
    | error e s' => exact ⟨e, s', rfl⟩
    | ok value s' =>
      obtain ⟨elements, helements, -⟩ := ok_of_map hcollect
      obtain ⟨-, -, -, hmoved⟩ := h.of_collectFrom helements
      exact absurd hmoved.le_limit (Nat.not_le.mpr hlt)
  · left
    obtain ⟨elements, s', helements⟩ := h.exists_collectFrom limit scope 0 [] hge
    obtain ⟨rest, rfl, hbytes, hmoved⟩ := h.of_collectFrom helements
    exact ⟨_, s', map_of_ok helements _, hbytes, hmoved⟩

end IntegerType.IsByte

/-! ## Agreement -/

variable {extent : Extent} {n : ℕ}

lemma IntegerType.isCharacter_unencoded (t : IntegerType) : t.unencoded.isCharacter = false := by
  simp [unencoded, isCharacter]

lemma IntegerType.IsByte.unencoded (h : t.IsByte) : t.unencoded.IsByte :=
  ⟨h.width, h.alignment, h.le_alignment⟩

/-- At an aligned place, a text and the characters agree unless the text is read and there is padding
between the characters. -/
lemma textAgrees_field_iff (h : t.IsByte) (hcharacter : t.isCharacter = true)
    (hposition : s.cursor.position % t.alignment = 0) (name : String) :
    TextAgrees extent (extent.field limit (.integer t) scope name n s)
        (extent.field limit (.integer t.unencoded) scope name n s) ↔
      ∀ f s', extent.field limit (.integer t) scope name n s = .ok f s' → ¬t.Gapped n := by
  have haligned : s.cursor.position % 8 = 0 := by
    have hmod := h.alignUp_mod_eight s.cursor.position
    rwa [alignUp_of_mod_eq_zero hposition] at hmod
  have hgapped := h.spread_eq_iff hposition n
  have htext := IntegerType.IsByte.text_of_contents extent limit scope n s hcharacter haligned
  have helements := h.unencoded.elements_of_contents extent limit scope n s t.isCharacter_unencoded
  unfold Extent.field
  rcases htext with ⟨s', htext, hmoved⟩ | ⟨⟨e, s', htext⟩, hroom⟩
  · rw [DecodeM.bind_of_ok htext]
    rcases helements with ⟨elements, s'', helements, hbytes, hmoved'⟩ | ⟨⟨e, s'', helements⟩, hroom⟩
    · rw [DecodeM.bind_of_ok helements]
      constructor
      · rintro hagrees f s₁ -
        cases hagrees
        exact hgapped.mp (hmoved'.cursor.position.symm.trans hmoved.cursor.position)
      · intro hnone
        have hdense := hnone _ _ rfl
        have hspread : t.unencoded.spread s.cursor.position n = s.cursor.position + 8 * n :=
          hgapped.mpr hdense
        obtain rfl : s' = s'' := hmoved.unique (hspread ▸ hmoved')
        have hdata := Nat.le_trans hmoved.le_limit s.cursor.limit_le
        exact .read rfl rfl (hbytes.trans (h.map_range_eq hposition hdense hdata))
    · rw [DecodeM.bind_of_error helements]
      refine iff_of_false (fun hagrees => by cases hagrees) fun hnone => ?_
      have hspread := hgapped.mpr (hnone _ _ rfl)
      exact absurd hmoved.le_limit (Nat.not_le.mpr (hspread ▸ hroom))
  · rw [DecodeM.bind_of_error htext]
    refine iff_of_true ?_ fun f s' hok => by cases hok
    rcases helements with ⟨elements, s'', -, -, hmoved'⟩ | ⟨⟨e', s'', helements⟩, -⟩
    · have hle := Nat.le_trans (h.le_spread hposition n) hmoved'.le_limit
      exact absurd hroom (Nat.not_lt.mpr hle)
    · rw [DecodeM.bind_of_error helements]
      exact .failed

end Characters

namespace FieldType

/-- **When a text agrees with its characters.**  A text in place of an array or a sequence of characters
and the elements that are read without the encoding agree, unless the text is read and there is padding
between the characters. -/
theorem text_agrees_iff {t : IntegerType} (ht : t.WellFormed) (hcharacter : t.isCharacter = true)
    (extent : Extent) (limit : ℕ) (scope : ScopeId) (name : String) (s : DecodeState) :
    TextAgrees extent ((extent.of (.integer t)).decode limit scope name s)
        ((extent.of (.integer t.unencoded)).decode limit scope name s) ↔
      ∀ f s' n, (extent.of (.integer t)).decode limit scope name s = .ok f s' →
        extent.length? s.scopes scope = some n → ¬t.Gapped n := by
  have h := ht.isByte hcharacter
  have hsame : (integer t.unencoded).alignment = (integer t).alignment := by
    rw [alignment, alignment]
    rfl
  rw [Extent.decode_of, Extent.decode_of, hsame]
  cases hannounce : extent.announce (integer t).alignment limit scope name s with
  | error e s₁ =>
    rw [DecodeM.bind_of_error hannounce, DecodeM.bind_of_error hannounce]
    exact iff_of_true .failed fun _ _ _ hok => by cases hok
  | ok n s₁ =>
    obtain ⟨hlength, hmoved⟩ := Extent.of_announce hannounce
    rw [alignment] at hmoved
    have hposition : s₁.cursor.position % t.alignment = 0 := by
      rw [hmoved.cursor.position]
      exact alignUp_mod _ _ (by have := h.le_alignment; omega)
    rw [DecodeM.bind_of_ok hannounce, DecodeM.bind_of_ok hannounce,
      textAgrees_field_iff h hcharacter hposition name]
    refine ⟨fun hnone f s' m hok hm => ?_, fun hnone f s' hok => hnone f s' n hok hlength⟩
    obtain rfl : n = m := Option.some.inj (hlength.symm.trans hm)
    exact hnone f s' hok

end FieldType

/-! ## Characters that stand apart -/

section Example

open Tsdl FieldType

/-- The characters of a text in UTF-8, with the given alignment. -/
def characterType (alignment : ℕ) : IntegerType :=
  { IntegerType.plain 8 false .little with alignment, encoding := .utf8 }

/-- Characters that are aligned to bytes agree with the text. -/
theorem text_agrees_twoCharacters :
    (characterType 8).WellFormed ∧ (characterType 8).isCharacter = true ∧
      TextAgrees (.fixed 2)
        ((array (.integer (characterType 8)) 2).decode 10 0 "text" (payloadStart [97, 98]))
        ((array (.integer (characterType 8).unencoded) 2).decode 10 0 "text"
          (payloadStart [97, 98])) := by
  have hwellFormed : (characterType 8).WellFormed := ⟨by decide, by decide, ⟨3, rfl⟩, by decide⟩
  have hiff := text_agrees_iff hwellFormed (by decide) (.fixed 2) 10 0 "text" (payloadStart [97, 98])
  refine ⟨hwellFormed, by decide, hiff.mpr ?_⟩
  rintro f s' n - - ⟨hlt, -⟩
  exact absurd hlt (by decide)

/-- A tree with one kind of event, whose payload is a text of two characters that are aligned to two
bytes. -/
def wideText : Node :=
  .block .root
    [.block .event
      [.value "name" (.word .unaryString "e"),
        .type "fields" (.struct
          [.member
            (.block .integer
              [.value "size" (.word .unaryDec "8"), .value "align" (.word .unaryDec "16"),
                .value "encoding" (.word .unaryString "utf8")])
            "text" [.word .unaryDec "2"]])]]

/-- The type of a member of the payload of an event. -/
def payloadMember? (metadata : Metadata) (name : String) : Option FieldType :=
  metadata.streams.values.findSome? fun stream =>
    stream.eventList.findSome? fun event => event.fields.bind (·.field? name)

/-- The characters of a text that always has the same length, and how many they are. -/
def FieldType.characters? : FieldType → Option (IntegerType × ℕ)
  | .array (.integer t) length => some (t, length)
  | _ => none

lemma FieldType.eq_array_of_characters? {t : FieldType} {c : IntegerType} {length : ℕ}
    (h : t.characters? = some (c, length)) : t = .array (.integer c) length := by
  unfold characters? at h
  split at h
  · cases h
    rfl
  · cases h

lemma exists_wideText : ∃ metadata, Metadata.ofTree wideText = .ok metadata ∧
    payloadMember? metadata "text" = some (.array (.integer (characterType 16)) 2) := by
  have hdeclared : (Metadata.ofTree wideText).toOption.bind (fun metadata =>
      (payloadMember? metadata "text").bind characters?) = some (characterType 16, 2) := by decide +kernel
  obtain ⟨metadata, hmetadata, hmember⟩ := Option.bind_eq_some_iff.mp hdeclared
  obtain ⟨t, htext, hcharacters⟩ := Option.bind_eq_some_iff.mp hmember
  have hdeclared := htext.trans (congrArg _ (eq_array_of_characters? hcharacters))
  exact ⟨metadata, eq_ok_of_toOption hmetadata, hdeclared⟩

/-- Not every text that metadata declares agrees with its characters. -/
theorem not_forall_textAgrees :
    ¬ ∀ (root : Node) (metadata : Metadata) (name : String) (extent : Extent) (t : IntegerType),
      Metadata.ofTree root = .ok metadata →
      payloadMember? metadata name = some (extent.of (.integer t)) → t.isCharacter = true →
      ∀ (limit : ℕ) (scope : ScopeId) (s : DecodeState),
        TextAgrees extent ((extent.of (.integer t)).decode limit scope name s)
          ((extent.of (.integer t.unencoded)).decode limit scope name s) := by
  intro hclaim
  obtain ⟨metadata, hmetadata, hmember⟩ := exists_wideText
  have hcharacter : (characterType 16).isCharacter = true := by decide
  have hagrees := hclaim wideText metadata "text" (.fixed 2) (characterType 16) hmetadata hmember
    hcharacter 10 0 (payloadStart [97, 98, 99])
  exact absurd hagrees.end_eq (by decide +kernel)

end Example

end CommonTrace
