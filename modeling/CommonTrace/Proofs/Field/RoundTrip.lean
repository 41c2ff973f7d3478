import CommonTrace.Proofs.Field.Layout

/-!
# Decoding undoes the layout

A value that has been laid out in bits is decoded to that value, whatever comes before and behind it.
This is `FieldType.decodeBlock_layout`, for the fields of a block.

The induction is on the type.  What is carried along is that the layout of the rest is ahead of the
cursor, and that what has been decoded is the chain of scopes that the rules of `FieldType.Accepts`
follow: then a path finds in the decoding what it has found in the rules, and the length of a sequence
and the alternative of a variant are those that were laid out.  `DecodeM.GivesBack` says this of one
step, and `FieldType.Restores` of all values of a type.

What a structure holds is read back from an arena in which the scopes opened for it are as they were left
(`Arena.Keeps`).  A field that is bound later, in a scope that was open before, does not disturb it.

Nothing is asked of alignments, except that a character takes the bits of its byte and no others
(`FieldType.Dense`): texts are read in one piece, without the padding between their characters.
-/

namespace CommonTrace

/-! ## Giving back -/

/-- **A step gives a result back**: it succeeds with the result, reads so many bits, and `chain` has been
decoded behind it.  In an arena that keeps the scopes of the step, the result is what it should be. -/
def DecodeM.GivesBack {α : Type} (m : DecodeM α) (s : DecodeState) (x : α) (chain : ScopeChain)
    (bits : ℕ) (shown : Arena → Prop) : Prop :=
  ∃ c, m s = .ok x ⟨c, chain⟩ ∧ s.cursor.MovedTo (s.cursor.position + bits) c ∧
    ∀ a : Arena, a.Keeps s ⟨c, chain⟩ → shown a

namespace DecodeM.GivesBack

variable {α β : Type} {m : DecodeM α} {s : DecodeState} {x : α} {chain : ScopeChain} {bits : ℕ}
  {shown : Arena → Prop}

lemma of_read (reading : Cursor → Except ReadError (α × Cursor))
    (h : ∃ c, reading s.cursor = .ok (x, c) ∧ s.cursor.MovedTo (s.cursor.position + bits) c)
    (hshown : ∀ a, shown a) : (read reading).GivesBack s x s.scopes bits shown := by
  obtain ⟨c, hreading, hmoved⟩ := h
  exact ⟨c, read_of_ok hreading, hmoved, fun a _ => hshown a⟩

lemma map (h : m.GivesBack s x chain bits shown) (f : α → β) :
    (f <$> m).GivesBack s (f x) chain bits shown := by
  obtain ⟨c, hm, hmoved, hshown⟩ := h
  exact ⟨c, map_of_ok hm f, hmoved, hshown⟩

/-- The result may be put together at the end. -/
lemma bind_pure (h : m.GivesBack s x chain bits shown) (f : α → β) :
    (m >>= fun a => pure (f a)).GivesBack s (f x) chain bits shown := by
  obtain ⟨c, hm, hmoved, hshown⟩ := h
  exact ⟨c, bind_of_ok hm _, hmoved, hshown⟩

/-- A step before it may only look. -/
lemma of_look {k : α → DecodeM β} {y : β} (hlook : m s = .ok x s)
    (h : (k x).GivesBack s y chain bits shown) : (m >>= k).GivesBack s y chain bits shown := by
  obtain ⟨c, hk, hrest⟩ := h
  exact ⟨c, (bind_of_ok hlook k).trans hk, hrest⟩

lemma mono {shown' : Arena → Prop} (h : m.GivesBack s x chain bits shown)
    (himp : ∀ a, shown a → shown' a) : m.GivesBack s x chain bits shown' := by
  obtain ⟨c, hm, hmoved, hshown⟩ := h
  exact ⟨c, hm, hmoved, fun a ha => himp a (hshown a ha)⟩

end DecodeM.GivesBack

/-! ## Scalars and texts -/

section Scalars

open DecodeM

variable {order : ByteOrder} {s : DecodeState} {shown : Arena → Prop}

/-- An integer that is laid out is read. -/
lemma IntegerType.givesBack_read {t : IntegerType} (ht : order.Carries t.width t.order) {n : ℤ}
    (hlow : t.minimum ≤ n) (hhigh : n ≤ t.maximum) (hahead : s.cursor.Ahead order (integerBits order t.width n))
    (hshown : ∀ a, shown a) :
    t.read.GivesBack s ⟨n, t.width, t.signed⟩ s.scopes t.width shown := by
  obtain ⟨hpositive, hwidth, rfl⟩ := ht
  unfold minimum at hlow
  unfold maximum at hhigh
  unfold integerBits at hahead
  unfold IntegerType.read
  by_cases hsigned : t.signed
  · rw [if_pos hsigned] at hlow hhigh ⊢
    have hread := hahead.exists_readSigned hpositive hwidth hlow hhigh
    exact (GivesBack.of_read (·.readSigned t.width t.order) hread hshown).bind_pure _
  · rw [if_neg hsigned] at hlow hhigh ⊢
    have hsame : n % (twoPow t.width : ℤ) = n := Int.emod_eq_of_lt hlow (by omega)
    rw [hsame] at hahead
    have hread := hahead.exists_readUnsigned hpositive hwidth (by omega)
    have hnatural := GivesBack.of_read (·.readUnsigned t.width t.order) hread hshown
    have hgives := (hnatural.map Int.ofNat).bind_pure fun value =>
      (⟨value, t.width, t.signed⟩ : IntegerValue)
    have hnat : Int.ofNat n.toNat = n := Int.toNat_of_nonneg hlow
    rwa [hnat] at hgives

/-- A floating point number that is laid out is read. -/
lemma FloatType.givesBack_read {t : FloatType} (ht : order.Carries t.width t.order) {word : ℕ}
    (hlt : word < twoPow t.width) (hahead : s.cursor.Ahead order (order.bits t.width word))
    (hshown : ∀ a, shown a) : t.read.GivesBack s (t.value word) s.scopes t.width shown := by
  obtain ⟨hpositive, hwidth, rfl⟩ := ht
  have hread := hahead.exists_readUnsigned hpositive hwidth hlt
  exact (GivesBack.of_read (·.readUnsigned t.width t.order) hread hshown).map t.value

/-- A string that is laid out is read. -/
lemma givesBack_readString {text : String} (hnonzero : '\x00' ∉ text.toList)
    (haligned : s.cursor.position % 8 = 0)
    (hahead : s.cursor.Ahead order (order.bitsOfBytes (utf8Bytes text ++ [0])))
    (hshown : ∀ a, shown a) :
    readString.GivesBack s text s.scopes (8 * ((utf8Bytes text).length + 1)) shown := by
  have hread := hahead.exists_readZeroTerminated haligned (zero_notMem_utf8Bytes hnonzero)
  have hgives := (GivesBack.of_read Cursor.readZeroTerminated hread hshown).map Utf8.decode
  rwa [Utf8.decode_utf8Bytes] at hgives

/-- A text in the place of characters that is laid out is read. -/
lemma givesBack_readText {length : ℕ} {text : String} (hroom : (utf8Bytes text).length ≤ length)
    (hnonzero : '\x00' ∉ text.toList) (haligned : s.cursor.position % 8 = 0)
    (hahead : s.cursor.Ahead order (order.bitsOfBytes (textBytes length text)))
    (hshown : ∀ a, shown a) : (readText length).GivesBack s text s.scopes (8 * length) shown := by
  have hread := hahead.exists_readBytes haligned
  rw [length_textBytes hroom] at hread
  have hgives := (GivesBack.of_read (·.readBytes length) hread hshown).map textOfBytes
  rwa [textOfBytes_textBytes hnonzero] at hgives

lemma checkLength_of_le {limit length : ℕ} (field : String) (h : length ≤ limit) :
    checkLength limit field length s = .ok () s := by
  rw [checkLength, if_neg (Nat.not_lt.mpr h)]
  rfl

lemma sequenceLength_of_resolved {scope : ScopeId} {path : FieldPath} {found : Field} {length : ℕ}
    (field : String) (hresolved : s.scopes.resolve? scope path = some found)
    (hlength : found.unsigned? = some length) :
    sequenceLength scope path field s = .ok length s := by
  rw [sequenceLength, get_bind_apply, hresolved]
  dsimp only
  rw [hlength]
  rfl

lemma selectedName_of_resolved {scope : ScopeId} {path : FieldPath} {found : Field}
    {selection : String} (field : String) (hresolved : s.scopes.resolve? scope path = some found)
    (hselects : found.selection? = some selection) :
    selectedName scope path field s = .ok selection s := by
  rw [selectedName, get_bind_apply, hresolved]
  dsimp only
  unfold Field.selection? at hselects
  cases hvalue : found.value with
  | enum n label =>
    rw [hvalue] at hselects
    cases hselects
    rfl
  | text text =>
    rw [hvalue] at hselects
    cases hselects
    rfl
  | _ =>
    rw [hvalue] at hselects
    cases hselects

end Scalars

/-! ## Fields -/

namespace FieldType

open DecodeM

variable {order : ByteOrder} {limit : ℕ} {s : DecodeState}

/-- Behind the padding, the layout is ahead. -/
lemma align_of_padded {alignment : ℕ} {lay : ℕ → List Bool}
    (hahead : s.cursor.Ahead order (padded alignment lay s.cursor.position)) :
    ∃ c, align alignment s = .ok () ⟨c, s.scopes⟩ ∧
      s.cursor.MovedTo (alignUp alignment s.cursor.position) c ∧ c.Ahead order (lay c.position) := by
  have hle := le_alignUp alignment s.cursor.position
  have hlength := length_padded alignment lay s.cursor.position
  have hlimit := hahead.le_limit
  have hroom : alignUp alignment s.cursor.position ≤ s.cursor.limit := by omega
  obtain ⟨c, halign, hmoved⟩ := Cursor.exists_align hroom
  refine ⟨c, ?_, hmoved, ?_⟩
  · refine read_of_ok ?_
    rw [halign]
    rfl
  · rw [hmoved.position]
    refine hahead.right ?_
    rwa [List.length_replicate, Nat.add_sub_cancel' hle]

/-- **A type restores its data**: wherever the layout of a value that it accepts is ahead, at an aligned
position, that value is decoded. -/
def Restores (order : ByteOrder) (limit : ℕ) (t : FieldType) : Prop :=
  ∀ {s : DecodeState} {scope : ScopeId} {name : String} {d : Datum} {v : Value} {chain : ScopeChain},
    Accepts limit s.scopes t scope name d v chain →
    (∃ p, s.cursor.position = alignUp t.alignment p) →
    s.cursor.Ahead order (layoutValue order t d s.cursor.position) →
      (decodeValue limit t scope name).GivesBack s v chain
        (layoutValue order t d s.cursor.position).length fun a => Shows a t d v

/-- A field is given back if its value is, behind the padding. -/
lemma givesBack_named {t : FieldType} (ht : t.Restores order limit) {scope : ScopeId} {name : String}
    {d : Datum} {v : Value} {chain : ScopeChain} (h : Accepts limit s.scopes t scope name d v chain)
    (hahead : s.cursor.Ahead order
      (padded t.alignment (layoutValue order t d) s.cursor.position)) :
    (t.named name (decodeValue limit t scope name)).GivesBack s ⟨name, t, v⟩ chain
      (padded t.alignment (layoutValue order t d) s.cursor.position).length
      fun a => Shows a t d v := by
  obtain ⟨c, hpadding, hmoved, hbits⟩ := align_of_padded hahead
  obtain ⟨c', hdecode, hmoved', hshown⟩ := ht (s := ⟨c, s.scopes⟩) h ⟨_, hmoved.position⟩ hbits
  refine ⟨c', ?_, ?_, hshown⟩
  · rw [named, bind_of_ok hpadding, bind_of_ok hdecode]
    rfl
  · rw [length_padded, ← hmoved.position]
    exact ⟨hmoved'.data.trans hmoved.data, hmoved'.limit.trans hmoved.limit, hmoved'.position⟩

/-! ## Elements -/

/-- Elements are given back if each of them is. -/
lemma givesBack_collectFrom {step : ℕ → DecodeM Field} {element : FieldType} {scope : ScopeId}
    {lay : Datum → ℕ → List Bool} (hgrows : ∀ index, (step index).Grows none)
    (hstep : ∀ {s : DecodeState} {index : ℕ} {d : Datum} {v : Value} {chain : ScopeChain},
      Accepts limit s.scopes element scope (toString index) d v chain →
      s.cursor.Ahead order (lay d s.cursor.position) →
      (step index).GivesBack s ⟨toString index, element, v⟩ chain (lay d s.cursor.position).length
        fun a => Shows a element d v)
    {index : ℕ} {items : List Datum} {elements : List Field} (before : List Field)
    {chain : ScopeChain} (h : EachAccepts limit s.scopes element scope index items elements chain)
    (hahead : s.cursor.Ahead order (layEach lay items s.cursor.position)) :
    (collectFrom step index before items.length).GivesBack s (before.reverse ++ elements) chain
      (layEach lay items s.cursor.position).length fun a => EachShows a element index items elements := by
  induction items generalizing s index elements before with
  | nil =>
    cases h
    refine ⟨s.cursor, ?_, ⟨rfl, rfl, rfl⟩, fun a _ => .nil⟩
    rw [List.append_nil]
    rfl
  | cons d items ih =>
    cases h with
    | @cons _ chain₁ _ _ _ _ _ v _ rest first others =>
      rw [layEach] at hahead ⊢
      obtain ⟨c₁, hfirst, hmoved₁, hshown₁⟩ := hstep first hahead.left
      have hrest := hahead.right hmoved₁
      rw [← hmoved₁.position] at hrest ⊢
      obtain ⟨c', hothers, hmoved', hshown'⟩ :=
        ih (s := ⟨c₁, chain₁⟩) (⟨toString index, element, v⟩ :: before) others hrest
      have hgrows₁ := (hgrows index).of_ok hfirst
      have hgrows' := (collectFrom_leads hgrows _ _ _).of_ok hothers
      refine ⟨c', ?_, ?_, fun a hkeeps => .cons ?_ ?_⟩
      · rw [List.length_cons, collectFrom, bind_of_ok hfirst, hothers, List.reverse_cons,
          List.append_assoc, List.singleton_append]
      · rw [List.length_append]
        exact hmoved₁.add hmoved'
      · exact hshown₁ a (hkeeps.earlier hgrows' fun _ hnone => by cases hnone)
      · exact hshown' a (hkeeps.later hgrows₁.size)

/-- The elements of an array or a sequence are given back. -/
lemma givesBack_elements {collect : List Field → Value} {element : FieldType} {scope : ScopeId}
    (hdense : Dense element) (helement : element.Restores order limit)
    (hposition : ∃ p, s.cursor.position = alignUp element.alignment p) {length : ℕ} {d : Datum}
    {v : Value} {chain : ScopeChain}
    (h : ElementsAccept limit s.scopes element scope length collect d v chain)
    (hahead : s.cursor.Ahead order (layoutElements order element.alignment
      (fun d => layoutValue order element d) d s.cursor.position)) :
    (if element.isCharacter then Value.text <$> readText length
      else collect <$> collectElements length fun index =>
        element.named index (decodeValue limit element scope index)).GivesBack s v chain
      (layoutElements order element.alignment (fun d => layoutValue order element d) d
        s.cursor.position).length fun a => ElementsShow a element collect d v := by
  cases h with
  | characters character room nonzero =>
    rename_i text
    rw [if_pos character]
    rw [layoutElements] at hahead ⊢
    rw [hdense character] at hposition hahead ⊢
    obtain ⟨p, hp⟩ := hposition
    have haligned : s.cursor.position % 8 = 0 := hp ▸ alignUp_mod 8 p (by decide)
    rw [layEach_bytes order _ haligned] at hahead ⊢
    rw [ByteOrder.length_bitsOfBytes, length_textBytes room]
    exact (givesBack_readText room nonzero haligned hahead fun _ => .characters).map Value.text
  | values character each =>
    rw [character, if_neg Bool.false_ne_true]
    rw [layoutElements] at hahead ⊢
    have hgrows : ∀ index : ℕ, (element.named (toString index)
        (decodeValue limit element scope (toString index))).Grows none :=
      fun index => named_grows element _ (decodeValue_grows limit element scope _)
    have hgives := givesBack_collectFrom hgrows (givesBack_named helement) [] each hahead
    exact (hgives.map collect).mono fun a => .values

/-- A structure is given back if its members are, in the scope that is opened for it. -/
lemma givesBack_struct {least : ℕ} {members : List (String × FieldType)} {scope : ScopeId}
    {name : String} {ds : List Datum} {chain : ScopeChain} {bits : ℕ}
    (h : (decodeFields limit members s.scopes.nextScope).GivesBack
      { s with scopes := s.scopes.opened scope name } () chain bits fun a =>
        ∃ fs, chain.arena.fields s.scopes.nextScope =
            (s.scopes.opened scope name).arena.fields s.scopes.nextScope ++ fs ∧
          MembersShow a members ds fs) :
    (do
      let inner ← DecodeM.openChild scope name
      decodeFields limit members inner
      return Value.struct inner).GivesBack s (.struct s.scopes.nextScope) chain bits fun a =>
        Shows a (.struct least members) (.struct ds) (.struct s.scopes.nextScope) := by
  obtain ⟨c, hmembers, hmoved, hshown⟩ := h
  have hopen : DecodeM.openChild scope name s =
      .ok s.scopes.nextScope { s with scopes := s.scopes.opened scope name } := rfl
  have hsize := s.scopes.nextScope_lt_opened scope name
  have hgrows := (decodeFields_grows limit members _).of_ok hmembers
  refine ⟨c, ?_, hmoved, fun a hkeeps => .struct ?_⟩
  · rw [bind_of_ok hopen, bind_of_ok hmembers]
    rfl
  · obtain ⟨fs, hfs, hshow⟩ := hshown a (hkeeps.later (Nat.le_of_lt hsize))
    have hkept : a.fields s.scopes.nextScope = chain.arena.fields s.scopes.nextScope :=
      hkeeps.fields_eq (Nat.le_refl _) (Nat.lt_of_lt_of_le hsize hgrows.size)
    rw [ScopeChain.fields_opened, List.nil_append] at hfs
    rwa [hkept, hfs]

/-! ## Values -/

mutual

/-- **A type of one byte order restores its data.** -/
theorem restores_of_regular (limit : ℕ) (t : FieldType) (hregular : Regular order t) :
    t.Restores order limit := by
  intro s scope name d v chain h hposition hahead
  match t with
  | .integer t =>
    cases h with
    | integer hlow hhigh =>
      rw [layoutValue] at hahead ⊢
      rw [decodeValue, length_integerBits]
      exact (t.givesBack_read hregular hlow hhigh hahead fun _ => .integer).map Value.integer
  | .float t =>
    cases h with
    | float hlt =>
      rw [layoutValue] at hahead ⊢
      rw [decodeValue, ByteOrder.length_bits]
      exact (t.givesBack_read hregular hlt hahead fun _ => .float).map Value.float
  | .string encoding =>
    cases h with
    | string hnonzero =>
      obtain ⟨p, hp⟩ := hposition
      have haligned : s.cursor.position % 8 = 0 := hp ▸ alignUp_mod 8 p (by decide)
      rw [layoutValue] at hahead ⊢
      rw [decodeValue, ByteOrder.length_bitsOfBytes, List.length_append, List.length_singleton]
      exact (givesBack_readString hnonzero haligned hahead fun _ => .string).map Value.text
  | .enum t =>
    cases h with
    | enum hlow hhigh =>
      rw [layoutValue] at hahead ⊢
      rw [decodeValue, EnumType.read, length_integerBits]
      exact (t.container.givesBack_read hregular hlow hhigh hahead fun _ => .enum).bind_pure
        fun n => Value.enum n (t.labelOf? n.value)
  | .array element length =>
    cases h with
    | array hle helements =>
      rw [layoutValue] at hahead ⊢
      rw [decodeValue]
      refine .of_look (checkLength_of_le name hle) ?_
      have helement : element.Restores order limit := restores_of_regular limit element hregular.2
      exact (givesBack_elements hregular.1 helement hposition helements hahead).mono fun a => .array
  | .sequence element path =>
    cases h with
    | sequence hresolved hlength hle helements =>
      rw [layoutValue] at hahead ⊢
      rw [decodeValue]
      refine .of_look (sequenceLength_of_resolved name hresolved hlength) ?_
      refine .of_look (checkLength_of_le name hle) ?_
      have helement : element.Restores order limit := restores_of_regular limit element hregular.2
      exact (givesBack_elements hregular.1 helement hposition helements hahead).mono fun a => .sequence
  | .struct least members =>
    cases h with
    | struct haccept =>
      rw [layoutValue] at hahead ⊢
      rw [decodeValue]
      have hsize := s.scopes.nextScope_lt_opened scope name
      exact givesBack_struct (givesBack_decodeFields limit members hregular haccept hsize hahead)
  | .variant none alternatives =>
    cases h
  | .variant (some tag) alternatives =>
    cases h with
    | variant hresolved hselects hlookup haccepts =>
      rw [layoutValue] at hahead ⊢
      rw [decodeValue]
      refine .of_look (selectedName_of_resolved name hresolved hselects) ?_
      have hgives := givesBack_decodeAlternative limit alternatives hregular name hlookup haccepts hahead
      exact (hgives.map _).mono fun a => .variant hlookup
termination_by structural t

/-- **Members that are laid out are given back**, behind the fields that were there. -/
theorem givesBack_decodeFields (limit : ℕ) (members : List (String × FieldType))
    (hregular : MembersRegular order members) {s : DecodeState} {scope : ScopeId} {ds : List Datum}
    {chain : ScopeChain} (h : MembersAccept limit s.scopes members scope ds chain)
    (hscope : scope < s.scopes.arena.scopes.size)
    (hahead : s.cursor.Ahead order (layoutMembers order members ds s.cursor.position)) :
    (decodeFields limit members scope).GivesBack s () chain
      (layoutMembers order members ds s.cursor.position).length fun a =>
        ∃ fs, chain.arena.fields scope = s.scopes.arena.fields scope ++ fs ∧
          MembersShow a members ds fs := by
  match members with
  | [] =>
    cases h
    exact ⟨s.cursor, rfl, ⟨rfl, rfl, rfl⟩, fun a _ => ⟨[], (List.append_nil _).symm, .nil⟩⟩
  | (name, t) :: rest =>
    cases h with
    | cons first others =>
      rename_i chain₁ d v ds
      rw [layoutMembers] at hahead ⊢
      obtain ⟨c₁, hfield, hmoved₁, hshown₁⟩ :=
        givesBack_named (restores_of_regular limit t hregular.1) first hahead.left
      have hthere := hahead.right hmoved₁
      rw [← hmoved₁.position] at hthere ⊢
      have hgrows := (named_grows t name (decodeValue_grows limit t scope name)).of_ok hfield
      have hbind : DecodeM.bindField scope ⟨name, t, v⟩ ⟨c₁, chain₁⟩ =
          .ok () ⟨c₁, chain₁.bound scope ⟨name, t, v⟩⟩ := rfl
      have hbound := (grows_bindField scope ⟨name, t, v⟩).of_ok hbind
      have hscope₁ : scope < chain₁.arena.scopes.size := Nat.lt_of_lt_of_le hscope hgrows.size
      have hscope₂ := Nat.lt_of_lt_of_le hscope₁ hbound.size
      obtain ⟨c', hrest, hmoved', hshown'⟩ := givesBack_decodeFields limit rest hregular.2
        (s := ⟨c₁, chain₁.bound scope ⟨name, t, v⟩⟩) others hscope₂ hthere
      have hmore := (decodeFields_grows limit rest scope).of_ok hrest
      refine ⟨c', ?_, ?_, fun a hkeeps => ?_⟩
      · rw [decodeFields, bind_of_ok hfield, bind_of_ok hbind, hrest]
      · rw [List.length_append]
        exact hmoved₁.add hmoved'
      · have hfirst := hshown₁ a (hkeeps.earlier (hbound.trans hmore) fun _ hinto => by
          cases hinto
          exact hscope)
        obtain ⟨fs, hfs, hothers⟩ := hshown' a
          (hkeeps.later (Nat.le_trans hgrows.size hbound.size))
        have hhere : (chain₁.bound scope ⟨name, t, v⟩).arena.fields scope =
            s.scopes.arena.fields scope ++ [⟨name, t, v⟩] := by
          rw [← Arena.fields_congr (hgrows.scope scope hscope (by simp))]
          exact Arena.fields_insert_self hscope₁ _
        refine ⟨⟨name, t, v⟩ :: fs, ?_, .cons hfirst hothers⟩
        rw [hfs, hhere, List.append_assoc, List.singleton_append]
termination_by structural members

theorem givesBack_decodeAlternative (limit : ℕ) (alternatives : List (String × FieldType))
    (hregular : MembersRegular order alternatives) {s : DecodeState} {scope : ScopeId}
    {selection : String} (name : String) {t : FieldType} {d : Datum} {v : Value} {chain : ScopeChain}
    (hlookup : alternatives.lookup selection = some t)
    (h : Accepts limit s.scopes t scope selection d v chain)
    (hahead : s.cursor.Ahead order
      (layoutAlternative order alternatives selection d s.cursor.position)) :
    (decodeAlternative limit alternatives selection scope name).GivesBack s ⟨selection, t, v⟩ chain
      (layoutAlternative order alternatives selection d s.cursor.position).length
      fun a => Shows a t d v := by
  match alternatives with
  | [] => cases hlookup
  | (alternative, u) :: rest =>
    rw [layoutAlternative] at hahead ⊢
    rw [decodeAlternative]
    by_cases heq : alternative = selection
    · subst heq
      rw [List.lookup_cons_self] at hlookup
      obtain rfl := Option.some.inj hlookup
      rw [if_pos rfl] at hahead ⊢
      rw [if_pos rfl]
      exact givesBack_named (restores_of_regular limit u hregular.1) h hahead
    · rw [List.lookup_cons, beq_false_of_ne (Ne.symm heq)] at hlookup
      rw [if_neg heq] at hahead ⊢
      rw [if_neg heq]
      exact givesBack_decodeAlternative limit rest hregular.2 name hlookup h hahead
termination_by structural alternatives

end

/-- **Decoding undoes the layout.**  The bits of values that the members of a structure accept, with any
others before and behind them, are decoded to these values, and the cursor stands at their end. -/
theorem decodeBlock_layout {limit least : ℕ} {members : List (String × FieldType)} {ds : List Datum}
    (hregular : Regular order (.struct least members)) {s : DecodeState} {block : StaticScope}
    {chain : ScopeChain}
    (haccept : MembersAccept limit (s.scopes.openedBlock block) members s.scopes.nextScope ds chain)
    {before bits after : List Bool}
    (hlayout : layout order (.struct least members) (.struct ds) before.length = bits)
    (hdata : s.cursor.data = ⟨(order.pack (before ++ bits ++ after)).toArray⟩)
    (hposition : s.cursor.position = before.length)
    (hlimit : before.length + bits.length ≤ s.cursor.limit) :
    ∃ root s', decodeBlock limit (.struct least members) block s = .ok root s' ∧
      MembersShow s'.scopes.arena members ds (s'.scopes.arena.fields root) ∧
      s'.cursor.position = before.length + bits.length := by
  have hahead := Cursor.ahead_of_pack hdata hposition hlimit
  rw [← hlayout, ← hposition] at hahead ⊢
  rw [layout] at hahead ⊢
  have hopen : DecodeM.openBlock block s =
      .ok s.scopes.nextScope ⟨s.cursor, s.scopes.openedBlock block⟩ := rfl
  have hsize := s.scopes.nextScope_lt_openedBlock block
  obtain ⟨c, hpadding, hmoved, hbits⟩ :=
    align_of_padded (s := ⟨s.cursor, s.scopes.openedBlock block⟩) hahead
  obtain ⟨c', hmembers, hmoved', hshown⟩ := givesBack_decodeFields limit members hregular
    (s := ⟨c, s.scopes.openedBlock block⟩) haccept hsize hbits
  obtain ⟨fs, hfs, hshow⟩ := hshown chain.arena fun _ _ _ => rfl
  rw [ScopeChain.fields_openedBlock, List.nil_append] at hfs
  refine ⟨s.scopes.nextScope, ⟨c', chain⟩, ?_, hfs ▸ hshow, ?_⟩
  · rw [decodeBlock, bind_of_ok hopen, decodeContents, bind_assoc, bind_of_ok hpadding,
      bind_of_ok hmembers]
    rfl
  · rw [length_padded, ← hmoved.position, hmoved'.position]
    rfl

/-- The number of integers that there are, a label, the integers, and what the label has announced. -/
def announcedText : List (String × FieldType) :=
  let kind : EnumType := ⟨.plain 3 false .big, [⟨"note", 1, 1⟩]⟩
  [("n", .integer (.plain 8 false .big)), ("kind", .enum kind),
    ("xs", .sequence (.integer (.plain 5 true .big)) ⟨.relative 0, "n", []⟩),
    ("body", .variant (some ⟨.relative 0, "kind", []⟩) [("note", .string .utf8)])]

/-- Two integers and a note. -/
def announcedDatum : List Datum :=
  [.integer 2, .integer 1, .list [.integer (-3), .integer 7], .variant "note" (.text "é")]

theorem decodeBlock_layout_announcedText :
    let bits := layout .big (.struct 1 announcedText) (.struct announcedDatum) 0
    let s : DecodeState := ⟨.ofBytes ⟨(ByteOrder.big.pack (bits ++ [true])).toArray⟩, .empty⟩
    ∃ root s', decodeBlock 10 (.struct 1 announcedText) .eventFields s = .ok root s' ∧
      MembersShow s'.scopes.arena announcedText announcedDatum (s'.scopes.arena.fields root) ∧
      s'.cursor.position = bits.length := by
  intro bits s
  have hdense : Dense (.integer (.plain 5 true .big)) := fun h => by cases h
  have hregular : Regular .big (.struct 1 announcedText) :=
    ⟨⟨by decide, by decide, rfl⟩, ⟨by decide, by decide, rfl⟩,
      ⟨hdense, by decide, by decide, rfl⟩, ⟨trivial, trivial⟩, trivial⟩
  have hinteger : ∀ {chain : ScopeChain} {name : String} {n : ℤ}, -16 ≤ n → n ≤ 15 →
      Accepts 10 chain (.integer (.plain 5 true .big)) 0 name (.integer n) (.integer ⟨n, 5, true⟩)
        chain :=
    fun hlow hhigh => .integer hlow hhigh
  have hlist : ∀ {chain : ScopeChain}, EachAccepts 10 chain (.integer (.plain 5 true .big)) 0 0
      [.integer (-3), .integer 7] _ chain :=
    .cons (hinteger (by decide) (by decide)) (.cons (hinteger (by decide) (by decide)) .nil)
  have haccept : ∃ chain, MembersAccept 10 (s.scopes.openedBlock .eventFields) announcedText
      s.scopes.nextScope announcedDatum chain :=
    ⟨_, .cons (.integer (by decide) (by decide)) (.cons (.enum (by decide) (by decide))
      (.cons (.sequence rfl rfl (by decide) (.values rfl hlist))
        (.cons (.variant rfl rfl rfl (.string (by decide))) .nil)))⟩
  have hlimit : bits.length ≤ s.cursor.limit := by decide +kernel
  obtain ⟨chain, haccept⟩ := haccept
  have hdata : s.cursor.data = ⟨(ByteOrder.big.pack ([] ++ bits ++ [true])).toArray⟩ := rfl
  obtain ⟨root, s', hdecode, hshow, hposition⟩ :=
    decodeBlock_layout hregular haccept rfl hdata rfl (by simpa using hlimit)
  exact ⟨root, s', hdecode, hshow, by simpa using hposition⟩

end FieldType

end CommonTrace
