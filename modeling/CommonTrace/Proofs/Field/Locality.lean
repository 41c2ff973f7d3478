import CommonTrace.Proofs.Bit.Reading
import CommonTrace.Proofs.Field.Growth

/-!
# Decoding sees what it steps over

What a decoding reads lies between the bit at which it starts and the one at which it ends.  So another
decoding that starts with the same scopes at the same bit gives the same, whatever its data holds before the
byte in which both start and behind the one in which they end, and even if its data ends sooner or later.
Nor does it matter if more elements are allowed in an array.

`DecodeM.RepeatedBy` is this relation between two steps.  It has one rule for each way of putting steps
together, so it is kept from the steps of a decoding to the whole, and the induction over types is made in
`FieldType.repeated_decodeValue`.  Nothing of the kind holds of a step that fails, because how it fails
depends on where the data ends.

* `FieldType.decoding_repeated`: decoding a value or a block sees what it steps over.
-/

namespace CommonTrace

/-! ## Cursors -/

namespace Cursor

/-- **The second cursor finds what the first finds up to bit `stop`.**  It stands at the same bit, its data has
the same bytes from the one in which both stand to the last one that begins before `stop`, and up to `stop`
it can be read.  Other bytes may differ, and there may be more or fewer of them. -/
structure FindsSame (stop : ℕ) (c c' : Cursor) : Prop where
  position : c'.position = c.position
  data : ∀ i, c.position / 8 ≤ i → i < (stop + 7) / 8 → c'.data[i]? = c.data[i]?
  limit : stop ≤ c'.limit

variable {stop : ℕ} {c c' c₁ c₁' : Cursor}

lemma FindsSame.earlier {earlier : ℕ} (h : c.FindsSame stop c') (hle : earlier ≤ stop) :
    c.FindsSame earlier c' where
  position := h.position
  data := fun i hfirst hlast => h.data i hfirst (by omega)
  limit := Nat.le_trans hle h.limit

/-- When both have moved forward to the same bit, they find the same from there. -/
lemma FindsSame.moved {position : ℕ} (h : c.FindsSame stop c') (hforward : c.position ≤ position)
    (hc : c.MovedTo position c₁) (hc' : c'.MovedTo position c₁') : c₁.FindsSame stop c₁' where
  position := by rw [hc'.position, hc.position]
  data := by
    intro i hfirst hlast
    rw [hc.position] at hfirst
    rw [hc.data, hc'.data]
    exact h.data i (by omega) hlast
  limit := by
    rw [hc'.limit]
    exact h.limit

lemma FindsSame.bytesBetween_eq (h : c.FindsSame stop c') {last : ℕ} (hlast : last ≤ (stop + 7) / 8) :
    bytesBetween c'.data (c.position / 8) last = bytesBetween c.data (c.position / 8) last := by
  apply List.ext_getElem?
  intro i
  rw [getElem?_bytesBetween, getElem?_bytesBetween]
  by_cases hi : c.position / 8 + i < last
  · rw [if_pos hi, if_pos hi, h.data _ (by omega) (by omega)]
  · rw [if_neg hi, if_neg hi]

lemma FindsSame.bitsAt_eq {width : ℕ} (h : c.FindsSame (c.position + width) c') (order : ByteOrder) :
    bitsAt c'.data c.position width order = bitsAt c.data c.position width order := by
  simp only [bitsAt, h.bytesBetween_eq (Nat.le_refl _)]

/-- A reading that succeeds moves forward, and where the same is found as far as it moves, it gives the
same. -/
def ReadsLocally {α : Type} (reading : Cursor → Except ReadError (α × Cursor)) : Prop :=
  ∀ (c c₁ : Cursor) (a : α), reading c = .ok (a, c₁) →
    c.position ≤ c₁.position ∧ c.MovedTo c₁.position c₁ ∧
      ∀ c', c.FindsSame c₁.position c' →
        ∃ c₁', reading c' = .ok (a, c₁') ∧ c'.MovedTo c₁.position c₁'

/-- It is enough to say what a reading does up to the bit to which it moves. -/
lemma readsLocally_of_moved {α : Type} {reading : Cursor → Except ReadError (α × Cursor)}
    (h : ∀ (c c₁ : Cursor) (a : α), reading c = .ok (a, c₁) →
      ∃ stop, c.position ≤ stop ∧ c.MovedTo stop c₁ ∧
        ∀ c', c.FindsSame stop c' → ∃ c₁', reading c' = .ok (a, c₁') ∧ c'.MovedTo stop c₁') :
    ReadsLocally reading := by
  intro c c₁ a hok
  obtain ⟨stop, hforward, hmoved, hagain⟩ := h c c₁ a hok
  rw [hmoved.position]
  exact ⟨hforward, hmoved, hagain⟩

lemma readsLocally_align (alignment : ℕ) :
    ReadsLocally fun c => (c.align alignment).map ((), ·) := by
  apply readsLocally_of_moved
  intro c c₁ a h
  cases halign : c.align alignment with
  | error error =>
    rw [halign] at h
    cases h
  | ok next =>
    rw [halign] at h
    cases h
    refine ⟨_, le_alignUp alignment c.position, of_align_ok halign, fun c' hsame => ?_⟩
    have hroom := hsame.limit
    rw [← hsame.position] at hroom ⊢
    obtain ⟨c₁', halign', hmoved'⟩ := exists_align hroom
    exact ⟨c₁', by rw [halign', Except.map], hmoved'⟩

lemma readsLocally_readUnsigned (width : ℕ) (order : ByteOrder) :
    ReadsLocally fun c => c.readUnsigned width order := by
  apply readsLocally_of_moved
  intro c c₁ n h
  obtain ⟨hpositive, hwidth, rfl, hmoved⟩ := of_readUnsigned_ok h
  refine ⟨_, by omega, hmoved, fun c' hsame => ?_⟩
  have hroom := hsame.limit
  rw [← hsame.bitsAt_eq order]
  rw [← hsame.position] at hroom ⊢
  exact exists_readUnsigned order hpositive hwidth hroom

lemma readsLocally_readSigned (width : ℕ) (order : ByteOrder) :
    ReadsLocally fun c => c.readSigned width order := by
  apply readsLocally_of_moved
  intro c c₁ n h
  obtain ⟨hpositive, hwidth, rfl, hmoved⟩ := of_readSigned_ok h
  refine ⟨_, by omega, hmoved, fun c' hsame => ?_⟩
  have hroom := hsame.limit
  rw [← hsame.bitsAt_eq order]
  rw [← hsame.position] at hroom ⊢
  exact exists_readSigned order hpositive hwidth hroom

lemma readsLocally_readBytes (count : ℕ) : ReadsLocally fun c => c.readBytes count := by
  apply readsLocally_of_moved
  intro c c₁ text h
  obtain ⟨haligned, rfl, hmoved⟩ := of_readBytes_ok h
  refine ⟨_, by omega, hmoved, fun c' hsame => ?_⟩
  have hroom := hsame.limit
  rw [← hsame.bytesBetween_eq (by omega)]
  rw [← hsame.position] at haligned hroom ⊢
  exact exists_readBytes haligned hroom

lemma readsLocally_readZeroTerminated : ReadsLocally readZeroTerminated := by
  apply readsLocally_of_moved
  intro c c₁ text h
  obtain ⟨haligned, hfree, htext, hzero, hmoved⟩ := of_readZeroTerminated_ok h
  refine ⟨_, by omega, hmoved, fun c' hsame => ?_⟩
  have hroom := hsame.limit
  rw [← hsame.bytesBetween_eq (by omega)] at htext
  rw [← hsame.data _ (by omega) (by omega)] at hzero
  rw [← hsame.position] at haligned htext hzero hroom ⊢
  exact exists_readZeroTerminated haligned htext.symm hfree hzero hroom

end Cursor

/-! ## Steps -/

namespace DecodeM

variable {α β : Type} {m m' : DecodeM α}

/-- **What the first step gives, the second gives again.**  If the first succeeds, it has moved forward.  The
second then succeeds in every state with the same scopes that finds the same up to where the first has
stopped: with the same result and the same scopes, at the same bit of its own data. -/
def RepeatedBy (m m' : DecodeM α) : Prop :=
  ∀ (s s₁ : DecodeState) (a : α), m s = .ok a s₁ →
    s.cursor.position ≤ s₁.cursor.position ∧ s.cursor.MovedTo s₁.cursor.position s₁.cursor ∧
      ∀ s', s'.scopes = s.scopes → s.cursor.FindsSame s₁.cursor.position s'.cursor →
        ∃ s₁', m' s' = .ok a s₁' ∧ s₁'.scopes = s₁.scopes ∧
          s'.cursor.MovedTo s₁.cursor.position s₁'.cursor

lemma repeated_pure (a : α) : (pure a : DecodeM α).RepeatedBy (pure a) := by
  intro s s₁ b h
  cases h
  exact ⟨Nat.le_refl _, ⟨rfl, rfl, rfl⟩, fun s' hscopes hsame =>
    ⟨s', rfl, hscopes, rfl, rfl, hsame.position⟩⟩

lemma repeated_throw (error : DecodeError) : (throw error : DecodeM α).RepeatedBy m' := by
  intro s s₁ b h
  cases h

lemma RepeatedBy.bind {k k' : α → DecodeM β} (hm : m.RepeatedBy m') (hk : ∀ a, (k a).RepeatedBy (k' a)) :
    (m >>= k).RepeatedBy (m' >>= k') := by
  intro s s₂ b h
  obtain ⟨a, s₁, hfirst, hsecond⟩ := ok_of_bind h
  obtain ⟨hle₁, hmoved₁, hagain₁⟩ := hm _ _ _ hfirst
  obtain ⟨hle₂, hmoved₂, hagain₂⟩ := hk a _ _ _ hsecond
  refine ⟨Nat.le_trans hle₁ hle₂,
    ⟨hmoved₂.data.trans hmoved₁.data, hmoved₂.limit.trans hmoved₁.limit, rfl⟩,
    fun s' hscopes hsame => ?_⟩
  obtain ⟨s₁', hfirst', hscopes₁, hmoved₁'⟩ := hagain₁ s' hscopes (hsame.earlier hle₂)
  obtain ⟨s₂', hsecond', hscopes₂, hmoved₂'⟩ :=
    hagain₂ s₁' hscopes₁ (hsame.moved hle₁ hmoved₁ hmoved₁')
  exact ⟨s₂', by rw [bind_of_ok hfirst', hsecond'], hscopes₂,
    hmoved₂'.data.trans hmoved₁'.data, hmoved₂'.limit.trans hmoved₁'.limit, hmoved₂'.position⟩

lemma RepeatedBy.map (f : α → β) (hm : m.RepeatedBy m') : (f <$> m).RepeatedBy (f <$> m') := by
  intro s s₁ b h
  obtain ⟨a, hfirst, rfl⟩ := ok_of_map h
  obtain ⟨hle, hmoved, hagain⟩ := hm _ _ _ hfirst
  refine ⟨hle, hmoved, fun s' hscopes hsame => ?_⟩
  obtain ⟨s₁', hfirst', hlast⟩ := hagain s' hscopes hsame
  exact ⟨s₁', map_of_ok hfirst' f, hlast⟩

/-- A step that looks at what has been decoded sees no data. -/
lemma repeated_look {k : DecodeState → DecodeM α} (h : ∀ s, (k s).RepeatedBy (k s))
    (hscopes : ∀ s s' : DecodeState, s'.scopes = s.scopes → k s' = k s) :
    ((get : DecodeM DecodeState) >>= k).RepeatedBy (get >>= k) := by
  intro s s₁ a hok
  rw [get_bind_apply] at hok
  obtain ⟨hle, hmoved, hagain⟩ := h s _ _ _ hok
  refine ⟨hle, hmoved, fun s' hsame hfinds => ?_⟩
  rw [get_bind_apply, hscopes s s' hsame]
  exact hagain s' hsame hfinds

lemma repeated_read {reading : Cursor → Except ReadError (α × Cursor)}
    (h : Cursor.ReadsLocally reading) : (read reading).RepeatedBy (read reading) := by
  intro s s₁ a hok
  unfold read at hok
  cases hread : reading s.cursor with
  | error error =>
    rw [hread] at hok
    cases hok
  | ok pair =>
    obtain ⟨b, c₁⟩ := pair
    rw [hread] at hok
    cases hok
    obtain ⟨hle, hmoved, hagain⟩ := h _ _ _ hread
    refine ⟨hle, hmoved, fun s' hscopes hsame => ?_⟩
    obtain ⟨c₁', hread', hmoved'⟩ := hagain s'.cursor hsame
    exact ⟨_, read_of_ok hread', hscopes, hmoved'⟩

lemma repeated_align (alignment : ℕ) : (align alignment).RepeatedBy (align alignment) :=
  repeated_read (Cursor.readsLocally_align alignment)

/-- A step that only writes into the scopes sees no data. -/
lemma repeated_write (write : ScopeChain → α × ScopeChain) :
    let step : DecodeM α := fun s => .ok (write s.scopes).1 { s with scopes := (write s.scopes).2 }
    step.RepeatedBy step := by
  intro step s s₁ a h
  cases h
  refine ⟨Nat.le_refl _, ⟨rfl, rfl, rfl⟩, fun s' hscopes hsame =>
    ⟨{ s' with scopes := (write s.scopes).2 }, ?_, rfl, rfl, rfl, hsame.position⟩⟩
  simp only [step, hscopes]

lemma repeated_openChild (parent : ScopeId) (name : String) :
    (openChild parent name).RepeatedBy (openChild parent name) :=
  repeated_write fun scopes =>
    ((scopes.arena.openChild parent name).1,
      { scopes with arena := (scopes.arena.openChild parent name).2 })

lemma repeated_openBlock (block : StaticScope) : (openBlock block).RepeatedBy (openBlock block) :=
  repeated_write fun scopes =>
    ((scopes.arena.openBlock block).1, { scopes with arena := (scopes.arena.openBlock block).2 })

lemma repeated_bindField (scope : ScopeId) (field : Field) :
    (bindField scope field).RepeatedBy (bindField scope field) :=
  repeated_write fun scopes => ((), { scopes with arena := scopes.arena.insert scope field })

end DecodeM

/-! ## Parts of values -/

section Parts

open DecodeM

lemma IntegerType.repeated_read (t : IntegerType) : t.read.RepeatedBy t.read := by
  unfold IntegerType.read
  split
  · exact (DecodeM.repeated_read (Cursor.readsLocally_readSigned _ _)).bind fun _ => repeated_pure _
  · have hread := DecodeM.repeated_read (Cursor.readsLocally_readUnsigned t.width t.order)
    exact (hread.map _).bind fun _ => repeated_pure _

lemma FloatType.repeated_read (t : FloatType) : t.read.RepeatedBy t.read :=
  (DecodeM.repeated_read (Cursor.readsLocally_readUnsigned _ _)).map _

lemma EnumType.repeated_read (t : EnumType) : t.read.RepeatedBy t.read :=
  t.container.repeated_read.bind fun _ => repeated_pure _

lemma repeated_readString : readString.RepeatedBy readString :=
  (DecodeM.repeated_read Cursor.readsLocally_readZeroTerminated).map _

lemma repeated_readText (length : ℕ) : (readText length).RepeatedBy (readText length) :=
  (DecodeM.repeated_read (Cursor.readsLocally_readBytes length)).map _

/-- A number of elements that is allowed stays allowed when more are. -/
lemma repeated_checkLength {limit limit' : ℕ} (hlimit : limit ≤ limit') (field : String) (length : ℕ) :
    (checkLength limit field length).RepeatedBy (checkLength limit' field length) := by
  by_cases hlength : limit < length
  · rw [checkLength, if_pos hlength]
    exact repeated_throw _
  · rw [checkLength, if_neg hlength, checkLength, if_neg (by omega)]
    exact repeated_pure _

lemma repeated_sequenceLength (scope : ScopeId) (path : FieldPath) (field : String) :
    (sequenceLength scope path field).RepeatedBy (sequenceLength scope path field) := by
  refine repeated_look (fun s => ?_) (fun s s' hscopes => by simp only [hscopes])
  split
  · exact repeated_throw _
  · split
    · exact repeated_throw _
    · exact repeated_pure _

lemma repeated_selectedName (scope : ScopeId) (path : FieldPath) (field : String) :
    (selectedName scope path field).RepeatedBy (selectedName scope path field) := by
  refine repeated_look (fun s => ?_) (fun s s' hscopes => by simp only [hscopes])
  split
  · exact repeated_throw _
  · split
    · exact repeated_pure _
    · exact repeated_throw _
    · exact repeated_pure _
    · exact repeated_throw _

lemma repeated_collectFrom {α : Type} {step step' : ℕ → DecodeM α}
    (h : ∀ index, (step index).RepeatedBy (step' index)) (index : ℕ) (before : List α) (count : ℕ) :
    (collectFrom step index before count).RepeatedBy (collectFrom step' index before count) := by
  induction count generalizing index before with
  | zero => exact repeated_pure _
  | succ count ih => exact (h index).bind fun a => ih (index + 1) (a :: before)

end Parts

/-! ## Values -/

namespace FieldType

open DecodeM

variable {limit limit' : ℕ}

lemma repeated_named (t : FieldType) (name : String) {value value' : DecodeM Value}
    (h : value.RepeatedBy value') : (t.named name value).RepeatedBy (t.named name value') :=
  (repeated_align _).bind fun _ => h.bind fun _ => repeated_pure _

mutual

theorem repeated_decodeValue (hlimit : limit ≤ limit') (t : FieldType) (scope : ScopeId)
    (name : String) :
    (decodeValue limit t scope name).RepeatedBy (decodeValue limit' t scope name) := by
  match t with
  | .integer t => exact t.repeated_read.map _
  | .float t => exact t.repeated_read.map _
  | .string _ => exact repeated_readString.map _
  | .enum t => exact t.repeated_read
  | .array element length =>
    have helement := fun index : ℕ =>
      repeated_named element (toString index)
        (repeated_decodeValue hlimit element scope (toString index))
    rw [decodeValue, decodeValue]
    apply (repeated_checkLength hlimit name length).bind
    intro _
    split
    · exact (repeated_readText length).map _
    · exact (repeated_collectFrom helement 0 [] length).map _
  | .sequence element path =>
    have helement := fun index : ℕ =>
      repeated_named element (toString index)
        (repeated_decodeValue hlimit element scope (toString index))
    rw [decodeValue, decodeValue]
    apply (repeated_sequenceLength scope path name).bind
    intro length
    apply (repeated_checkLength hlimit name length).bind
    intro _
    split
    · exact (repeated_readText length).map _
    · exact (repeated_collectFrom helement 0 [] length).map _
  | .struct _ fields =>
    rw [decodeValue, decodeValue]
    apply (repeated_openChild scope name).bind
    intro inner
    exact (repeated_decodeFields hlimit fields inner).bind fun _ => repeated_pure _
  | .variant none _ => exact repeated_throw _
  | .variant (some tag) alternatives =>
    rw [decodeValue, decodeValue]
    apply (repeated_selectedName scope tag name).bind
    intro selection
    exact (repeated_decodeAlternative hlimit alternatives selection scope name).map _
termination_by structural t

theorem repeated_decodeFields (hlimit : limit ≤ limit') (fields : List (String × FieldType))
    (scope : ScopeId) :
    (decodeFields limit fields scope).RepeatedBy (decodeFields limit' fields scope) := by
  match fields with
  | [] => exact repeated_pure _
  | (name, t) :: rest =>
    have hnamed := repeated_named t name (repeated_decodeValue hlimit t scope name)
    rw [decodeFields, decodeFields]
    apply hnamed.bind
    intro field
    exact (repeated_bindField scope field).bind fun _ =>
      repeated_decodeFields hlimit rest scope
termination_by structural fields

theorem repeated_decodeAlternative (hlimit : limit ≤ limit')
    (alternatives : List (String × FieldType)) (selection : String) (scope : ScopeId) (name : String) :
    (decodeAlternative limit alternatives selection scope name).RepeatedBy
      (decodeAlternative limit' alternatives selection scope name) := by
  match alternatives with
  | [] => exact repeated_throw _
  | (alternative, t) :: rest =>
    rw [decodeAlternative, decodeAlternative]
    split
    · exact repeated_named t selection (repeated_decodeValue hlimit t scope selection)
    · exact repeated_decodeAlternative hlimit rest selection scope name
termination_by structural alternatives

end

lemma repeated_decode (hlimit : limit ≤ limit') (t : FieldType) (scope : ScopeId) (name : String) :
    (decode limit t scope name).RepeatedBy (decode limit' t scope name) :=
  repeated_named t name (repeated_decodeValue hlimit t scope name)

lemma repeated_decodeContents (hlimit : limit ≤ limit') (t : FieldType) (block : StaticScope)
    (scope : ScopeId) :
    (decodeContents limit t block scope).RepeatedBy (decodeContents limit' t block scope) := by
  have hother : (t.decode limit scope block.name >>= DecodeM.bindField scope).RepeatedBy
      (t.decode limit' scope block.name >>= DecodeM.bindField scope) :=
    (repeated_decode hlimit t scope block.name).bind fun field => repeated_bindField scope field
  cases t with
  | struct least fields =>
    exact (repeated_align _).bind fun _ => repeated_decodeFields hlimit fields scope
  | _ => exact hother

lemma repeated_decodeBlock (hlimit : limit ≤ limit') (t : FieldType) (block : StaticScope) :
    (decodeBlock limit t block).RepeatedBy (decodeBlock limit' t block) := by
  apply (repeated_openBlock block).bind
  intro scope
  exact (repeated_decodeContents hlimit t block scope).bind fun _ => repeated_pure _

/-- **Decoding sees what it steps over, and nothing else.**  A value or a block that has been decoded is
decoded again from the same scopes at the same bit of any data that agrees on the bytes stepped over, however
much of it follows, and also if longer arrays and sequences are allowed: to the same fields, with the same
scopes, up to the same bit. -/
theorem decoding_repeated (hlimit : limit ≤ limit') (t : FieldType) :
    (∀ scope name, (t.decode limit scope name).RepeatedBy (t.decode limit' scope name)) ∧
      ∀ block, (t.decodeBlock limit block).RepeatedBy (t.decodeBlock limit' block) :=
  ⟨repeated_decode hlimit t, repeated_decodeBlock hlimit t⟩

/-- A number of three bits and that many numbers of five bits. -/
def narrowCounts : FieldType :=
  .struct 1 [("n", .integer (.plain 3 false .little)),
    ("xs", .sequence (.integer (.plain 5 false .little)) ⟨.relative 0, "n", []⟩)]

/-- The start of the payload of an event at the tenth bit of some data. -/
def atTenthBit (bytes : List UInt8) (limit : ℕ) (hlimit : limit ≤ 8 * bytes.length) (hten : 10 ≤ limit) :
    DecodeState where
  cursor :=
    { data := ⟨bytes.toArray⟩, limit, position := 10, limit_le := hlimit, position_le := hten }
  scopes := { arena := (Arena.empty.openBlock .eventFields).2, outer := [] }

/-- The bytes around the second and the third are others, and the data ends inside a byte. -/
theorem decoding_repeated_narrowCounts : ∃ f s s',
    narrowCounts.decode 2 0 "e" (atTenthBit [9, 0xAB, 0x35, 7, 7] 40 (by decide) (by decide)) = .ok f s ∧
      s.cursor.position = 23 ∧
      narrowCounts.decode 5 0 "e" (atTenthBit [0, 0xAB, 0x35] 23 (by decide) (by decide)) = .ok f s' ∧
      s'.scopes = s.scopes ∧ s'.cursor.position = 23 := by
  have hsucceeds : (match narrowCounts.decode 2 0 "e"
        (atTenthBit [9, 0xAB, 0x35, 7, 7] 40 (by decide) (by decide)) with
      | .ok _ s => decide (s.cursor.position = 23)
      | .error _ _ => false) = true := by decide +kernel
  split at hsucceeds
  · rename_i f s h
    have hstop := of_decide_eq_true hsucceeds
    have hsame : (atTenthBit [9, 0xAB, 0x35, 7, 7] 40 (by decide) (by decide)).cursor.FindsSame
        s.cursor.position (atTenthBit [0, 0xAB, 0x35] 23 (by decide) (by decide)).cursor := by
      rw [hstop]
      refine ⟨rfl, fun i hfirst hlast => ?_, by decide⟩
      obtain rfl | rfl : i = 1 ∨ i = 2 := by
        change 10 / 8 ≤ i at hfirst
        omega
      · rfl
      · rfl
    obtain ⟨-, -, hagain⟩ := (decoding_repeated (by decide : 2 ≤ 5) narrowCounts).1 0 "e" _ _ _ h
    obtain ⟨s', h', hscopes, hmoved⟩ :=
      hagain (atTenthBit [0, 0xAB, 0x35] 23 (by decide) (by decide)) rfl hsame
    exact ⟨f, s, s', h, hstop, h', hscopes, hmoved.position.trans hstop⟩
  · cases hsucceeds

end FieldType

end CommonTrace
