import CommonTrace.Field.Decode

/-!
# Decoding only adds

A decoding moves the cursor forward over data that it leaves alone, and it opens new scopes behind
those that there are.  It never goes back to a scope that was there when it started, with one
exception: the fields of a structure are bound in the scope of the structure, which was opened
before them.  No block is registered on the way, except where a block as a whole is decoded, and the
arenas around are not written to at all.  All this holds of a decoding that fails, too.

`DecodeState.Grows` is this relation between the state before and the state behind a step.  It is a
preorder, so it carries over from the steps of a decoding to the whole (`DecodeM.Grows.bind`), and
the induction over types is made once, in `FieldType.decodeValue_grows`.
-/

namespace CommonTrace

/-! ## Cursors that move forward -/

namespace Cursor

/-- The other cursor stands in the same data, as far on or further. -/
structure Follows (c' c : Cursor) : Prop where
  data : c'.data = c.data
  limit : c'.limit = c.limit
  position : c.position ≤ c'.position

theorem Follows.refl (c : Cursor) : c.Follows c :=
  ⟨rfl, rfl, Nat.le_refl _⟩

theorem follows_advance (c : Cursor) (bits : Nat) (h : bits ≤ c.remaining) :
    (c.advance bits h).Follows c :=
  ⟨rfl, rfl, Nat.le_add_right _ _⟩

theorem follows_of_skip {c c' : Cursor} {bits : Nat} {requested : Option Nat}
    (h : c.skip bits requested = .ok c') : c'.Follows c := by
  unfold skip at h
  split at h
  · cases h
    exact c.follows_advance bits _
  · cases h

theorem follows_of_align {c c' : Cursor} {alignment : Nat} (h : c.align alignment = .ok c') :
    c'.Follows c := by
  unfold align at h
  split at h
  · cases h
    exact .refl c
  · exact follows_of_skip h

theorem follows_of_readUnsigned {c c' : Cursor} {width n : Nat} {order : ByteOrder}
    (h : c.readUnsigned width order = .ok (n, c')) : c'.Follows c := by
  unfold readUnsigned at h
  split at h
  · cases h
  · cases hs : c.skip width with
    | error => rw [hs] at h; cases h
    | ok next =>
      rw [hs] at h
      cases h
      exact follows_of_skip hs

theorem follows_of_readSigned {c c' : Cursor} {width : Nat} {n : Int} {order : ByteOrder}
    (h : c.readSigned width order = .ok (n, c')) : c'.Follows c := by
  unfold readSigned at h
  cases hr : c.readUnsigned width order with
  | error => rw [hr] at h; cases h
  | ok pair =>
    rw [hr] at h
    cases h
    exact follows_of_readUnsigned hr

theorem follows_of_readBytes {c c' : Cursor} {count : Nat} {bytes : List UInt8}
    (h : c.readBytes count = .ok (bytes, c')) : c'.Follows c := by
  unfold readBytes at h
  split at h
  · cases h
  · cases hs : c.skip (8 * count) (bitsOfBytes? count) with
    | error => rw [hs] at h; cases h
    | ok next =>
      rw [hs] at h
      cases h
      exact follows_of_skip hs

theorem follows_of_readZeroTerminated {c c' : Cursor} {bytes : List UInt8}
    (h : c.readZeroTerminated = .ok (bytes, c')) : c'.Follows c := by
  unfold readZeroTerminated at h
  split at h
  · cases h
  · cases hr : runLength? c.data (c.position / 8) (c.limit / 8 - c.position / 8) with
    | none => simp only [hr] at h; cases h
    | some count =>
      simp only [hr] at h
      cases hs : c.skip (8 * (count + 1)) with
      | error => rw [hs] at h; cases h
      | ok next =>
        rw [hs] at h
        cases h
        exact follows_of_skip hs

end Cursor

/-! ## The preorder -/

/-- `s.Grows into s'`: a decoding that starts in `s` may be in `s'` some steps later.  Only in the
scope `into`, if one is given, may it have bound fields next to those that were there. -/
structure DecodeState.Grows (into : Option ScopeId) (s s' : DecodeState) : Prop where
  /-- The cursor has moved forward. -/
  cursor : s'.cursor.Follows s.cursor
  /-- The arenas around are the same. -/
  outer : s'.scopes.outer = s.scopes.outer
  /-- The blocks are the same. -/
  blocks : s'.scopes.arena.blocks = s.scopes.arena.blocks
  /-- No scope has gone. -/
  size : s.scopes.arena.scopes.size ≤ s'.scopes.arena.scopes.size
  /-- Scopes lie where they lay. -/
  parent : ∀ i < s.scopes.arena.scopes.size, s'.scopes.arena.parent? i = s.scopes.arena.parent? i
  /-- Other scopes than `into` are the same. -/
  scope : ∀ i < s.scopes.arena.scopes.size, into ≠ some i →
    s'.scopes.arena.scopes[i]? = s.scopes.arena.scopes[i]?

namespace DecodeState.Grows

variable {into : Option ScopeId} {s s₁ s₂ : DecodeState}

theorem refl (into : Option ScopeId) (s : DecodeState) : s.Grows into s :=
  ⟨.refl _, rfl, rfl, Nat.le_refl _, fun _ _ => rfl, fun _ _ _ => rfl⟩

theorem trans (h₁ : s.Grows into s₁) (h₂ : s₁.Grows into s₂) : s.Grows into s₂ where
  cursor :=
    ⟨h₂.cursor.data.trans h₁.cursor.data, h₂.cursor.limit.trans h₁.cursor.limit,
      Nat.le_trans h₁.cursor.position h₂.cursor.position⟩
  outer := h₂.outer.trans h₁.outer
  blocks := h₂.blocks.trans h₁.blocks
  size := Nat.le_trans h₁.size h₂.size
  parent i hi := (h₂.parent i (Nat.lt_of_lt_of_le hi h₁.size)).trans (h₁.parent i hi)
  scope i hi hne := (h₂.scope i (Nat.lt_of_lt_of_le hi h₁.size) hne).trans (h₁.scope i hi hne)

/-- What changes no scope does not change any scope but one either. -/
theorem weaken (h : s.Grows none s₁) (into : Option ScopeId) : s.Grows into s₁ :=
  { h with scope := fun i hi _ => h.scope i hi (by simp) }

/-- Fields bound in a scope that was not there before change no scope that was. -/
theorem of_new {scope : ScopeId} (h : s.Grows (some scope) s₁)
    (hscope : s.scopes.arena.scopes.size ≤ scope) : s.Grows none s₁ where
  cursor := h.cursor
  outer := h.outer
  blocks := h.blocks
  size := h.size
  parent := h.parent
  scope i hi _ := h.scope i hi (by intro he; cases he; omega)

end DecodeState.Grows

/-! ## Steps -/

/-- A relation between states that carries over from two steps to both of them together. -/
class DecodeState.Accumulates (R : DecodeState → DecodeState → Prop) : Prop where
  refl : ∀ s, R s s
  trans : ∀ {s s₁ s₂}, R s s₁ → R s₁ s₂ → R s s₂

/-- A relation that lets the cursor move forward. -/
class DecodeState.AllowsReading (R : DecodeState → DecodeState → Prop) : Prop
    extends DecodeState.Accumulates R where
  moved : ∀ (s : DecodeState) {cursor : Cursor}, cursor.Follows s.cursor → R s { s with cursor }

instance (into : Option ScopeId) : DecodeState.AllowsReading (DecodeState.Grows into) where
  refl := .refl into
  trans := .trans
  moved s _ h := { DecodeState.Grows.refl into s with cursor := h }

/-- The cursor of the second state has moved forward from that of the first. -/
def DecodeState.Advances (s s' : DecodeState) : Prop :=
  s'.cursor.Follows s.cursor

instance : DecodeState.AllowsReading DecodeState.Advances where
  refl s := .refl s.cursor
  trans h₁ h₂ :=
    ⟨h₂.data.trans h₁.data, h₂.limit.trans h₁.limit, Nat.le_trans h₁.position h₂.position⟩
  moved _ _ h := h

/-- The scopes of the second state are those of the first. -/
def DecodeState.SameScopes (s s' : DecodeState) : Prop :=
  s'.scopes = s.scopes

instance : DecodeState.AllowsReading DecodeState.SameScopes where
  refl _ := rfl
  trans h₁ h₂ := Eq.trans h₂ h₁
  moved _ _ _ := rfl

namespace DecodeM

variable {α β : Type} {R : DecodeState → DecodeState → Prop}

/-- The state behind a step, whether it succeeds or fails. -/
def final (m : DecodeM α) (s : DecodeState) : DecodeState :=
  match m s with
  | .ok _ s' => s'
  | .error _ s' => s'

/-- Two steps one after the other succeed if each does. -/
theorem ok_of_bind {m : DecodeM α} {k : α → DecodeM β} {s s' : DecodeState} {b : β}
    (h : (m >>= k) s = .ok b s') : ∃ a s₁, m s = .ok a s₁ ∧ k a s₁ = .ok b s' := by
  simp only [Bind.bind, EStateM.bind] at h
  cases hs : m s with
  | ok a s₁ =>
    simp only [hs] at h
    exact ⟨a, s₁, rfl, h⟩
  | error e s₁ =>
    simp only [hs] at h
    cases h

/-- Two steps one after the other fail if one does. -/
theorem error_of_bind {m : DecodeM α} {k : α → DecodeM β} {s s' : DecodeState} {e : DecodeError}
    (h : (m >>= k) s = .error e s') :
    m s = .error e s' ∨ ∃ a s₁, m s = .ok a s₁ ∧ k a s₁ = .error e s' := by
  simp only [Bind.bind, EStateM.bind] at h
  cases hs : m s with
  | ok a s₁ =>
    simp only [hs] at h
    exact .inr ⟨a, s₁, rfl, h⟩
  | error e' s₁ =>
    simp only [hs] at h
    cases h
    exact .inl rfl

theorem get_bind_apply (k : DecodeState → DecodeM α) (s : DecodeState) :
    ((get : DecodeM DecodeState) >>= k) s = k s s :=
  rfl

theorem bind_of_ok {m : DecodeM α} {s s' : DecodeState} {a : α} (h : m s = .ok a s')
    (k : α → DecodeM β) : (m >>= k) s = k a s' := by
  simp only [Bind.bind, EStateM.bind, h]

theorem map_of_ok {m : DecodeM α} {s s' : DecodeState} {a : α} (h : m s = .ok a s') (f : α → β) :
    (f <$> m) s = .ok (f a) s' := by
  simp only [Functor.map, EStateM.map, h]

theorem read_of_ok {reading : Cursor → Except ReadError (α × Cursor)} {s : DecodeState} {a : α}
    {c : Cursor} (h : reading s.cursor = .ok (a, c)) : read reading s = .ok a { s with cursor := c } := by
  simp only [read, h]

theorem bind_of_error {m : DecodeM α} {s s' : DecodeState} {e : DecodeError}
    (h : m s = .error e s') (k : α → DecodeM β) : (m >>= k) s = .error e s' := by
  simp only [Bind.bind, EStateM.bind, h]

theorem ok_of_map {m : DecodeM α} {f : α → β} {s s' : DecodeState} {b : β}
    (h : (f <$> m) s = .ok b s') : ∃ a, m s = .ok a s' ∧ f a = b := by
  simp only [Functor.map, EStateM.map] at h
  cases hs : m s with
  | ok a s₁ =>
    simp only [hs, EStateM.Result.ok.injEq] at h
    obtain ⟨hb, rfl⟩ := h
    exact ⟨a, rfl, hb⟩
  | error e s₁ =>
    simp only [hs] at h
    cases h

/-- Wherever the step is performed, the states before and behind it are related. -/
def Leads (R : DecodeState → DecodeState → Prop) (m : DecodeM α) : Prop :=
  ∀ s, R s (m.final s)

theorem Leads.of_ok {m : DecodeM α} (h : m.Leads R) {s s' : DecodeState} {a : α}
    (hm : m s = .ok a s') : R s s' := by
  have := h s
  simpa only [final, hm] using this

theorem Leads.mono {R' : DecodeState → DecodeState → Prop} {m : DecodeM α} (h : m.Leads R)
    (hR : ∀ {s s'}, R s s' → R' s s') : m.Leads R' :=
  fun s => hR (h s)

section Accumulating

variable [DecodeState.Accumulates R]

theorem Leads.pure (a : α) : (Pure.pure a : DecodeM α).Leads R :=
  fun s => DecodeState.Accumulates.refl s

theorem Leads.throw (e : DecodeError) : (MonadExcept.throw e : DecodeM α).Leads R :=
  fun s => DecodeState.Accumulates.refl s

theorem Leads.get : (MonadState.get : DecodeM DecodeState).Leads R :=
  fun s => DecodeState.Accumulates.refl s

theorem Leads.bind {m : DecodeM α} {k : α → DecodeM β} (hm : m.Leads R)
    (hk : ∀ a, (k a).Leads R) : (m >>= k).Leads R := by
  intro s
  have h := hm s
  simp only [final, Bind.bind, EStateM.bind] at h ⊢
  cases hs : m s with
  | ok a s₁ =>
    simp only [hs] at h ⊢
    exact DecodeState.Accumulates.trans h (hk a s₁)
  | error e s₁ =>
    simp only [hs] at h ⊢
    exact h

omit [DecodeState.Accumulates R] in
theorem Leads.map {m : DecodeM α} (f : α → β) (hm : m.Leads R) : (f <$> m).Leads R := by
  intro s
  have h := hm s
  simp only [final, Functor.map, EStateM.map] at h ⊢
  cases hs : m s <;> simpa only [hs] using h

end Accumulating

section Reading

variable [DecodeState.AllowsReading R]

/-- A reading that moves the cursor forward leads on in every relation that allows this. -/
theorem leads_read {reading : Cursor → Except ReadError (α × Cursor)}
    (h : ∀ {c c' : Cursor} {a : α}, reading c = .ok (a, c') → c'.Follows c) :
    (read reading).Leads R := by
  intro s
  unfold final read
  cases hr : reading s.cursor with
  | error e => exact DecodeState.Accumulates.refl s
  | ok pair => exact DecodeState.AllowsReading.moved s (h hr)

theorem leads_align (alignment : Nat) : (align alignment).Leads R := by
  refine leads_read fun {c c' _} h => ?_
  cases ha : c.align alignment with
  | error e => rw [ha] at h; cases h
  | ok next =>
    rw [ha] at h
    cases h
    exact Cursor.follows_of_align ha

end Reading

/-- The step grows the state, binding fields in the scope `into` at most. -/
abbrev Grows (into : Option ScopeId) (m : DecodeM α) : Prop :=
  m.Leads (DecodeState.Grows into)

theorem Grows.weaken {m : DecodeM α} (h : m.Grows none) (into : Option ScopeId) : m.Grows into :=
  h.mono fun hs => hs.weaken into

variable {into : Option ScopeId}

theorem grows_openChild (parent : ScopeId) (name : String) :
    (openChild parent name).Grows into := by
  intro s
  refine ⟨.refl _, rfl, rfl, ?_, fun i hi => ?_, fun i hi _ => ?_⟩
  · simp only [final, openChild, Arena.openChild, Array.size_push]
    exact Nat.le_succ _
  · simp only [final, openChild, Arena.openChild, Arena.parent?, Array.getElem?_push,
      Nat.ne_of_lt hi, if_false]
  · simp only [final, openChild, Arena.openChild, Array.getElem?_push, Nat.ne_of_lt hi, if_false]

/-- What is bound in a scope just opened changes no scope that was there before. -/
theorem grows_openChild_bind {α : Type} (parent : ScopeId) (name : String)
    {k : ScopeId → DecodeM α} (hk : ∀ scope, (k scope).Grows (some scope)) :
    (openChild parent name >>= k).Grows none := by
  intro s
  have hopen : s.Grows (some s.scopes.arena.scopes.size) ((openChild parent name).final s) :=
    grows_openChild parent name s
  exact (hopen.trans (hk _ _)).of_new (Nat.le_refl _)

theorem grows_bindField (scope : ScopeId) (field : Field) :
    (bindField scope field).Grows (some scope) := by
  intro s
  refine ⟨.refl _, rfl, rfl, ?_, fun i hi => ?_, fun i hi hne => ?_⟩
  · simp only [final, bindField, Arena.insert, Array.size_modify]
    exact Nat.le_refl _
  · simp only [final, bindField, Arena.insert, Arena.parent?, Array.getElem?_modify]
    split
    · cases s.scopes.arena.scopes[i]? <;> rfl
    · rfl
  · have hi' : scope ≠ i := fun h => hne (congrArg some h)
    simp only [final, bindField, Arena.insert, Array.getElem?_modify, if_neg hi']

end DecodeM

/-! ## Parts of values

Reading a part moves the cursor and looks at the scopes, but it leaves them as they are. -/

section Parts

open DecodeM

variable {R : DecodeState → DecodeState → Prop} [DecodeState.AllowsReading R]

theorem IntegerType.read_leads (t : IntegerType) : t.read.Leads R := by
  unfold IntegerType.read
  split
  · exact (leads_read Cursor.follows_of_readSigned).bind fun _ => .pure _
  · exact ((leads_read Cursor.follows_of_readUnsigned).map _).bind fun _ => .pure _

theorem FloatType.read_leads (t : FloatType) : t.read.Leads R :=
  (leads_read Cursor.follows_of_readUnsigned).map _

theorem EnumType.read_leads (t : EnumType) : t.read.Leads R :=
  t.container.read_leads.bind fun _ => .pure _

theorem readString_leads : readString.Leads R :=
  (leads_read Cursor.follows_of_readZeroTerminated).map _

theorem readText_leads (length : Nat) : (readText length).Leads R :=
  (leads_read Cursor.follows_of_readBytes).map _

theorem checkLength_leads (limit : Nat) (field : String) (length : Nat) :
    (checkLength limit field length).Leads R := by
  unfold checkLength
  split
  · exact .throw _
  · exact .pure _

/-- Looking up a length only looks. -/
theorem sequenceLength_leads (scope : ScopeId) (path : FieldPath) (field : String) :
    (sequenceLength scope path field).Leads R := by
  refine Leads.get.bind fun s => ?_
  cases s.scopes.resolve? scope path with
  | none => exact .throw _
  | some found =>
    cases hn : found.unsigned? with
    | none => simpa only [hn] using Leads.throw _
    | some length => simpa only [hn] using Leads.pure _

/-- Looking up a tag only looks. -/
theorem selectedName_leads (scope : ScopeId) (path : FieldPath) (field : String) :
    (selectedName scope path field).Leads R := by
  refine Leads.get.bind fun s => ?_
  cases s.scopes.resolve? scope path with
  | none => exact .throw _
  | some found =>
    dsimp only
    split
    · exact .pure _
    · exact .throw _
    · exact .pure _
    · exact .throw _

theorem collectFrom_leads {α : Type} {step : Nat → DecodeM α} (h : ∀ index, (step index).Leads R)
    (index : Nat) (before : List α) (count : Nat) :
    (collectFrom step index before count).Leads R := by
  induction count generalizing index before with
  | zero => exact .pure _
  | succ count ih => exact (h index).bind fun a => ih (index + 1) (a :: before)

theorem collectElements_leads {decodeElement : String → DecodeM Field}
    (h : ∀ name, (decodeElement name).Leads R) (count : Nat) :
    (collectElements count decodeElement).Leads R :=
  collectFrom_leads (fun index => h (toString index)) 0 [] count

end Parts

/-! ## Values -/

namespace FieldType

open DecodeM

variable {into : Option ScopeId}

theorem named_grows (t : FieldType) (name : String) {value : DecodeM Value}
    (h : value.Grows into) : (t.named name value).Grows into :=
  (leads_align _).bind fun _ => h.bind fun _ => .pure _

mutual

/-- Decoding a value changes no scope that was there before. -/
theorem decodeValue_grows (limit : Nat) (t : FieldType) (scope : ScopeId) (name : String) :
    (decodeValue limit t scope name).Grows none := by
  match t with
  | .integer t => exact t.read_leads.map _
  | .float t => exact t.read_leads.map _
  | .string _ => exact readString_leads.map _
  | .enum t => exact t.read_leads
  | .array element length =>
    have helement := fun index =>
      named_grows element index (decodeValue_grows limit element scope index)
    rw [decodeValue]
    refine (checkLength_leads limit name length).bind fun _ => ?_
    split
    · exact (readText_leads length).map _
    · exact (collectElements_leads helement _).map _
  | .sequence element path =>
    have helement := fun index =>
      named_grows element index (decodeValue_grows limit element scope index)
    rw [decodeValue]
    refine (sequenceLength_leads scope path name).bind fun length => ?_
    refine (checkLength_leads limit name length).bind fun _ => ?_
    split
    · exact (readText_leads length).map _
    · exact (collectElements_leads helement _).map _
  | .struct _ fields =>
    rw [decodeValue]
    exact grows_openChild_bind scope name fun inner =>
      (decodeFields_grows limit fields inner).bind fun _ => .pure _
  | .variant none _ => exact .throw _
  | .variant (some tag) alternatives =>
    rw [decodeValue]
    refine (selectedName_leads scope tag name).bind fun selection => ?_
    exact (decodeAlternative_grows limit alternatives selection scope name).map _
termination_by structural t

/-- Decoding fields binds them in their scope and changes no other one. -/
theorem decodeFields_grows (limit : Nat) (fields : List (String × FieldType)) (scope : ScopeId) :
    (decodeFields limit fields scope).Grows (some scope) := by
  match fields with
  | [] => exact .pure _
  | (name, t) :: rest =>
    have hnamed := named_grows t name (decodeValue_grows limit t scope name)
    rw [decodeFields]
    refine Leads.bind (hnamed.weaken _) ?_
    intro field
    exact (grows_bindField scope field).bind fun _ => decodeFields_grows limit rest scope
termination_by structural fields

theorem decodeAlternative_grows (limit : Nat) (alternatives : List (String × FieldType))
    (selection : String) (scope : ScopeId) (name : String) :
    (decodeAlternative limit alternatives selection scope name).Grows none := by
  match alternatives with
  | [] => exact .throw _
  | (alternative, t) :: rest =>
    rw [decodeAlternative]
    split
    · have hvalue := decodeValue_grows limit t scope selection
      exact named_grows t selection hvalue
    · exact decodeAlternative_grows limit rest selection scope name
termination_by structural alternatives

end

theorem decode_grows (limit : Nat) (t : FieldType) (scope : ScopeId) (name : String) :
    (decode limit t scope name).Grows none :=
  named_grows t name (decodeValue_grows limit t scope name)

/-- Decoding the contents of a block binds them in the scope of the block and changes no other. -/
theorem decodeContents_grows (limit : Nat) (t : FieldType) (block : StaticScope)
    (scope : ScopeId) : (decodeContents limit t block scope).Grows (some scope) := by
  have hother : (t.decode limit scope block.name >>= DecodeM.bindField scope).Grows (some scope) :=
    ((decode_grows limit t scope block.name).weaken _).bind fun field =>
      grows_bindField scope field
  cases t with
  | struct least fields =>
    exact (leads_align _).bind fun _ => decodeFields_grows limit fields scope
  | _ => exact hother

/-- Decoding a block moves the cursor forward. -/
theorem decodeBlock_advances (limit : Nat) (t : FieldType) (block : StaticScope) :
    (decodeBlock limit t block).Leads DecodeState.Advances := by
  have hopen : (DecodeM.openBlock block).Leads DecodeState.Advances := fun s => .refl s.cursor
  refine hopen.bind fun scope => ?_
  have hcontents := (decodeContents_grows limit t block scope).mono fun h => h.cursor
  exact Leads.bind hcontents fun _ => .pure _

end FieldType

end CommonTrace
