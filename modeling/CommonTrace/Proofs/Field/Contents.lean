import CommonTrace.Proofs.Bit.Reading
import CommonTrace.Proofs.Field.Growth
import Mathlib.Data.Int.Notation
import Mathlib.Data.Nat.Notation
import Mathlib.Tactic.Lemma

/-!
# What a decoded value holds

A value that has been decoded has the shape of its type.  For a structure this is a statement about
the arena: the fields of the structure stand in a scope of their own, in the order of the type, each
with its name, its type and a value of that type.  `Arena.Holds` is this statement, for as far as
paths descend: through structures, but not into arrays, sequences and variants.

All scopes of a value lie in one stretch of the arena, those that were opened while it was decoded
(`FieldType.holds_of_decodeValue`).  So the value stays what it is as long as nothing is bound in that
stretch any more (`Arena.Holds.of_agree`).
-/

namespace CommonTrace

namespace Arena

variable {a a' : Arena} {lo lo' hi hi' : ℕ} {scope : ScopeId} {name : String}

/-! ## Fields of a scope -/

lemma fields_congr (h : a'.scopes[scope]? = a.scopes[scope]?) : a'.fields scope = a.fields scope := by
  rw [fields, fields, h]

lemma field?_eq_find? (a : Arena) (scope : ScopeId) (name : String) :
    a.field? scope name = (a.fields scope).find? (·.name == name) := by
  unfold field? fields
  cases a.scopes[scope]? with
  | none => rfl
  | some s => simp

lemma fields_insert_self (h : scope < a.scopes.size) (f : Field) :
    (a.insert scope f).fields scope = a.fields scope ++ [f] := by
  simp [fields, insert, Array.getElem_modify, h]

/-! ## Values in an arena -/

mutual

/-- `a.Holds lo hi t v`: the value `v` has the shape of the type `t`, and all its scopes are among
those of `a` from `lo` on and before `hi`. -/
def Holds (a : Arena) (lo hi : ℕ) (t : FieldType) (v : Value) : Prop :=
  match t with
  | .integer _ => ∃ n, v = .integer n ∧ n.value < twoPow 64
  | .enum _ => ∃ n label, v = .enum n label ∧ n.value < twoPow 64
  | .string _ => ∃ text, v = .text text
  | .struct _ fields =>
    ∃ scope, v = .struct scope ∧ lo ≤ scope ∧ scope < hi ∧ HoldsFields a lo hi fields (a.fields scope)
  | .float _ => ∃ x, v = .float x
  | .array _ _ => (∃ text, v = .text text) ∨ ∃ elements, v = .array elements
  | .sequence _ _ => (∃ text, v = .text text) ∨ ∃ elements, v = .sequence elements
  | .variant _ _ => True
termination_by structural t

/-- The fields have the names and the types of the members, one by one, and values of these types. -/
def HoldsFields (a : Arena) (lo hi : ℕ) (members : List (String × FieldType)) (fs : List Field) :
    Prop :=
  match members with
  | [] => fs = []
  | (name, t) :: rest =>
    ∃ f fs', fs = f :: fs' ∧ (f.name = name ∧ f.type = t ∧ Holds a lo hi t f.value) ∧
      HoldsFields a lo hi rest fs'
termination_by structural members

end

mutual

/-- A value is still there in an arena that has the same scopes where those of the value are. -/
theorem Holds.of_agree (hlo : lo' ≤ lo) (hhi : hi ≤ hi')
    (hagree : ∀ i, lo ≤ i → i < hi → a'.scopes[i]? = a.scopes[i]?) {t : FieldType} {v : Value}
    (h : a.Holds lo hi t v) : a'.Holds lo' hi' t v := by
  match t with
  | .integer _ => exact h
  | .enum _ => exact h
  | .string _ => exact h
  | .struct _ members =>
    obtain ⟨scope, hv, hge, hlt, hfields⟩ := h
    refine ⟨scope, hv, Nat.le_trans hlo hge, Nat.lt_of_lt_of_le hlt hhi, ?_⟩
    rw [fields_congr (hagree scope hge hlt)]
    exact HoldsFields.of_agree hlo hhi hagree hfields
  | .float _ => exact h
  | .array _ _ => exact h
  | .sequence _ _ => exact h
  | .variant _ _ => trivial
termination_by structural t

theorem HoldsFields.of_agree (hlo : lo' ≤ lo) (hhi : hi ≤ hi')
    (hagree : ∀ i, lo ≤ i → i < hi → a'.scopes[i]? = a.scopes[i]?)
    {members : List (String × FieldType)} {fs : List Field}
    (h : a.HoldsFields lo hi members fs) : a'.HoldsFields lo' hi' members fs := by
  match members with
  | [] => exact h
  | (name, t) :: rest =>
    obtain ⟨f, fs', hfs, ⟨hname, htype, hvalue⟩, hrest⟩ := h
    exact ⟨f, fs', hfs, ⟨hname, htype, Holds.of_agree hlo hhi hagree hvalue⟩,
      HoldsFields.of_agree hlo hhi hagree hrest⟩
termination_by structural members

end

lemma HoldsFields.concat {members : List (String × FieldType)} {fs : List Field} {t : FieldType}
    {f : Field} (h : a.HoldsFields lo hi members fs) (hname : f.name = name) (htype : f.type = t)
    (hvalue : a.Holds lo hi t f.value) :
    a.HoldsFields lo hi (members ++ [(name, t)]) (fs ++ [f]) := by
  induction members generalizing fs with
  | nil =>
    obtain rfl : fs = [] := h
    exact ⟨f, [], rfl, ⟨hname, htype, hvalue⟩, rfl⟩
  | cons member members ih =>
    obtain ⟨g, fs', rfl, hg, hrest⟩ := h
    exact ⟨g, fs' ++ [f], rfl, hg, ih hrest⟩

/-- A member is found among the fields. -/
lemma HoldsFields.find?_of_lookup {members : List (String × FieldType)} {fs : List Field}
    {t : FieldType} (h : a.HoldsFields lo hi members fs) (ht : members.lookup name = some t) :
    ∃ f, fs.find? (·.name == name) = some f ∧ f.type = t ∧ a.Holds lo hi t f.value := by
  induction members generalizing fs with
  | nil => cases ht
  | cons member members ih =>
    obtain ⟨f, fs', rfl, ⟨hname, htype, hvalue⟩, hrest⟩ := h
    obtain ⟨member, u⟩ := member
    by_cases hmember : name = member
    · subst hmember
      rw [List.lookup_cons_self] at ht
      obtain rfl : u = t := Option.some.inj ht
      exact ⟨f, by simp [hname], htype, hvalue⟩
    · rw [List.lookup_cons, beq_false_of_ne hmember] at ht
      obtain ⟨g, hg, hg'⟩ := ih hrest ht
      refine ⟨g, ?_, hg'⟩
      rw [List.find?_cons, hname, beq_false_of_ne (Ne.symm hmember)]
      exact hg

/-- What is no member is not found among the fields either. -/
lemma HoldsFields.find?_of_lookup_eq_none {members : List (String × FieldType)} {fs : List Field}
    (h : a.HoldsFields lo hi members fs) (ht : members.lookup name = none) :
    fs.find? (·.name == name) = none := by
  induction members generalizing fs with
  | nil =>
    obtain rfl : fs = [] := h
    rfl
  | cons member members ih =>
    obtain ⟨f, fs', rfl, ⟨hname, -⟩, hrest⟩ := h
    obtain ⟨member, u⟩ := member
    rw [List.lookup_cons] at ht
    split at ht
    · cases ht
    · rename_i hne
      have hmember : name ≠ member := by simpa using hne
      rw [List.find?_cons, hname, beq_false_of_ne hmember.symm]
      exact ih hrest ht

end Arena

/-! ## Descending -/

/-- Whether the type is a variant. -/
def FieldType.isVariant : FieldType → Bool
  | .variant _ _ => true
  | _ => false

/-- Whether descending by the given names from a value of the type goes into a variant. -/
def FieldType.entersVariant (t : FieldType) : List String → Bool
  | [] => false
  | name :: names => t.isVariant || (t.member? name).any (·.entersVariant names)

/-- Where the type has a member to descend to, the value has a field of that type. -/
lemma Arena.Holds.member? {a : Arena} {lo hi : ℕ} {t t' : FieldType} {f : Field} {name : String}
    (h : a.Holds lo hi t f.value) (hvariant : t.isVariant = false)
    (ht : t.member? name = some t') :
    ∃ f', a.member? f name = some f' ∧ f'.type = t' ∧ a.Holds lo hi t' f'.value := by
  cases t with
  | struct least members =>
    obtain ⟨scope, hv, -, -, hfields⟩ := h
    obtain ⟨f', hf', htype, hvalue⟩ := hfields.find?_of_lookup ht
    refine ⟨f', ?_, htype, hvalue⟩
    rw [Arena.member?, hv]
    exact (a.field?_eq_find? scope name).trans hf'
  | variant => cases hvariant
  | _ => cases ht

/-- Where the type has no member to descend to, neither has the value. -/
lemma Arena.Holds.member?_eq_none {a : Arena} {lo hi : ℕ} {t : FieldType} {f : Field} {name : String}
    (h : a.Holds lo hi t f.value) (hvariant : t.isVariant = false) (ht : t.member? name = none) :
    a.member? f name = none := by
  cases t with
  | struct least members =>
    obtain ⟨scope, hv, -, -, hfields⟩ := h
    rw [Arena.member?, hv]
    exact (a.field?_eq_find? scope name).trans (hfields.find?_of_lookup_eq_none ht)
  | variant => cases hvariant
  | array | sequence =>
    obtain ⟨_, hv⟩ | ⟨_, hv⟩ := h
    · rw [Arena.member?, hv]
    · rw [Arena.member?, hv]
  | enum =>
    obtain ⟨_, _, hv, -⟩ := h
    rw [Arena.member?, hv]
  | integer =>
    obtain ⟨_, hv, -⟩ := h
    rw [Arena.member?, hv]
  | float | string =>
    obtain ⟨_, hv⟩ := h
    rw [Arena.member?, hv]

/-- **Descending in a value follows descending in its type**, unless it goes into a variant. -/
lemma Arena.Holds.descend? {a : Arena} {lo hi : ℕ} {t t' : FieldType} {f : Field}
    {names : List String} (h : a.Holds lo hi t f.value) (htype : f.type = t)
    (henters : t.entersVariant names = false) (ht : t.descend? names = some t') :
    ∃ f', a.descend? f names = some f' ∧ f'.type = t' ∧ a.Holds lo hi t' f'.value := by
  induction names generalizing t f with
  | nil =>
    obtain rfl : t = t' := Option.some.inj ht
    exact ⟨f, rfl, htype, h⟩
  | cons name names ih =>
    rw [FieldType.descend?, List.foldlM_cons] at ht
    obtain ⟨u, hu, hrest⟩ := Option.bind_eq_some_iff.mp ht
    rw [FieldType.entersVariant, Bool.or_eq_false_iff, hu] at henters
    obtain ⟨hvariant, hthere⟩ := henters
    obtain ⟨g, hg, hgtype, hgvalue⟩ := h.member? hvariant hu
    obtain ⟨f', hf', hf'type, hf'value⟩ := ih hgvalue hgtype hthere hrest
    refine ⟨f', ?_, hf'type, hf'value⟩
    rw [Arena.descend?, List.foldlM_cons, hg]
    exact hf'

/-- A value has nothing where its type has nothing, unless descending goes into a variant. -/
lemma Arena.Holds.descend?_eq_none {a : Arena} {lo hi : ℕ} {t : FieldType} {f : Field}
    {names : List String} (h : a.Holds lo hi t f.value) (htype : f.type = t)
    (henters : t.entersVariant names = false) (ht : t.descend? names = none) :
    a.descend? f names = none := by
  induction names generalizing t f with
  | nil => cases ht
  | cons name names ih =>
    rw [FieldType.entersVariant, Bool.or_eq_false_iff] at henters
    obtain ⟨hvariant, hthere⟩ := henters
    rw [FieldType.descend?, List.foldlM_cons] at ht
    rw [Arena.descend?, List.foldlM_cons]
    cases hmember : t.member? name with
    | none =>
      rw [h.member?_eq_none hvariant hmember]
      rfl
    | some u =>
      rw [hmember] at ht hthere
      obtain ⟨g, hg, hgtype, hgvalue⟩ := h.member? hvariant hmember
      rw [hg]
      exact ih hgvalue hgtype hthere ht

/-! ## What decoding leaves behind -/

section Decoding

open DecodeM

variable {s s' : DecodeState}

lemma DecodeM.of_read_ok {α : Type} {reading : Cursor → Except ReadError (α × Cursor)} {x : α}
    (h : DecodeM.read reading s = .ok x s') :
    ∃ c, reading s.cursor = .ok (x, c) ∧ s' = { s with cursor := c } := by
  unfold DecodeM.read at h
  split at h
  · rename_i hreading
    cases h
    exact ⟨_, hreading, rfl⟩
  · cases h

/-- What a step has done that only moves the cursor. -/
structure DecodeState.MovedTo (s : DecodeState) (position : ℕ) (s' : DecodeState) : Prop where
  scopes : s'.scopes = s.scopes
  cursor : s.cursor.MovedTo position s'.cursor

lemma DecodeM.movedTo_of_align {alignment : ℕ} (h : align alignment s = .ok () s') :
    s.MovedTo (alignUp alignment s.cursor.position) s' := by
  obtain ⟨c, halign, rfl⟩ := of_read_ok h
  cases hc : s.cursor.align alignment with
  | error => rw [hc] at halign; cases halign
  | ok next =>
    rw [hc] at halign
    cases halign
    exact ⟨rfl, Cursor.of_align_ok hc⟩

lemma scopes_of_align {alignment : ℕ} (h : align alignment s = .ok () s') :
    s'.scopes = s.scopes :=
  (movedTo_of_align h).scopes

/-- A named value is a field of that name and of that type. -/
lemma FieldType.of_named_ok {t : FieldType} {name : String} {value : DecodeM Value} {f : Field}
    (h : t.named name value s = .ok f s') :
    ∃ s₁, align t.alignment s = .ok () s₁ ∧ value s₁ = .ok f.value s' ∧
      f.name = name ∧ f.type = t := by
  obtain ⟨_, s₁, halign, h⟩ := ok_of_bind h
  obtain ⟨v, s₂, hvalue, h⟩ := ok_of_bind h
  cases h
  exact ⟨s₁, halign, hvalue, rfl, rfl⟩

lemma Cursor.lt_of_readUnsigned {c c' : Cursor} {width n : ℕ} {order : ByteOrder}
    (h : c.readUnsigned width order = .ok (n, c')) : n < twoPow 64 := by
  obtain ⟨-, hwidth, rfl, -⟩ := of_readUnsigned_ok h
  exact Nat.lt_of_lt_of_le (bitsAt_lt _ _ _ _) (twoPow_le hwidth)

lemma Cursor.lt_of_readSigned {c c' : Cursor} {width : ℕ} {n : ℤ} {order : ByteOrder}
    (h : c.readSigned width order = .ok (n, c')) : n < twoPow 64 := by
  obtain ⟨hpositive, hwidth, rfl, -⟩ := of_readSigned_ok h
  have hle := (signExtend_bounds hpositive hwidth (bitsAt c.data c.position width order)).2
  have hpow : twoPow (width - 1) ≤ twoPow 64 := twoPow_le (by omega)
  omega

lemma IntegerType.lt_of_read {t : IntegerType} {n : IntegerValue} (h : t.read s = .ok n s') :
    n.value < twoPow 64 := by
  unfold IntegerType.read at h
  split at h
  · obtain ⟨value, s₁, hread, h⟩ := ok_of_bind h
    obtain ⟨c, hbits, -⟩ := of_read_ok hread
    cases h
    exact Cursor.lt_of_readSigned hbits
  · obtain ⟨value, s₁, hread, h⟩ := ok_of_bind h
    obtain ⟨k, hnatural, rfl⟩ := ok_of_map hread
    obtain ⟨c, hbits, -⟩ := of_read_ok hnatural
    cases h
    exact Int.ofNat_lt.mpr (Cursor.lt_of_readUnsigned hbits)

namespace FieldType

mutual

/-- **A decoded value has the shape of its type**, in the scopes that were opened for it. -/
theorem holds_of_decodeValue (limit : ℕ) (t : FieldType) (scope : ScopeId) (name : String)
    {s s' : DecodeState} {v : Value} (h : decodeValue limit t scope name s = .ok v s') :
    s'.scopes.arena.Holds s.scopes.arena.scopes.size s'.scopes.arena.scopes.size t v := by
  match t with
  | .integer t =>
    rw [decodeValue] at h
    obtain ⟨n, hread, rfl⟩ := ok_of_map h
    exact ⟨n, rfl, t.lt_of_read hread⟩
  | .enum t =>
    rw [decodeValue] at h
    obtain ⟨n, s₁, hread, h⟩ := ok_of_bind h
    cases h
    exact ⟨n, _, rfl, t.container.lt_of_read hread⟩
  | .string _ =>
    rw [decodeValue] at h
    obtain ⟨text, -, rfl⟩ := ok_of_map h
    exact ⟨text, rfl⟩
  | .struct _ members =>
    rw [decodeValue] at h
    obtain ⟨inner, s₁, hopen, h⟩ := ok_of_bind h
    obtain ⟨_, s₂, hmembers, h⟩ := ok_of_bind h
    cases h
    obtain ⟨rfl, rfl⟩ : inner = s.scopes.arena.scopes.size ∧
        s₁ = { s with scopes := { s.scopes with arena := (s.scopes.arena.openChild scope name).2 } } := by
      cases hopen
      exact ⟨rfl, rfl⟩
    have hsize : s.scopes.arena.scopes.size <
        (s.scopes.arena.openChild scope name).2.scopes.size := by
      simp [Arena.openChild]
    have hgrows := (decodeFields_grows limit members _).of_ok hmembers
    obtain ⟨fs, hfs, hholds⟩ := holdsFields_of_decodeFields limit members _ hsize hmembers
    have hempty : (s.scopes.arena.openChild scope name).2.fields s.scopes.arena.scopes.size = [] := by
      simp [Arena.openChild, Arena.fields]
    rw [hempty, List.nil_append] at hfs
    refine ⟨_, rfl, Nat.le_refl _, Nat.lt_of_lt_of_le hsize hgrows.size, ?_⟩
    rw [hfs]
    exact hholds.of_agree (Nat.le_of_lt hsize) (Nat.le_refl _) fun _ _ _ => rfl
  | .float _ =>
    rw [decodeValue] at h
    obtain ⟨x, -, rfl⟩ := ok_of_map h
    exact ⟨x, rfl⟩
  | .array element length =>
    rw [decodeValue] at h
    obtain ⟨_, s₁, -, h⟩ := ok_of_bind h
    split at h
    · obtain ⟨text, -, rfl⟩ := ok_of_map h
      exact .inl ⟨text, rfl⟩
    · obtain ⟨elements, -, rfl⟩ := ok_of_map h
      exact .inr ⟨elements, rfl⟩
  | .sequence element path =>
    rw [decodeValue] at h
    obtain ⟨length, s₁, -, h⟩ := ok_of_bind h
    obtain ⟨_, s₂, -, h⟩ := ok_of_bind h
    split at h
    · obtain ⟨text, -, rfl⟩ := ok_of_map h
      exact .inl ⟨text, rfl⟩
    · obtain ⟨elements, -, rfl⟩ := ok_of_map h
      exact .inr ⟨elements, rfl⟩
  | .variant _ _ => trivial
termination_by structural t

/-- Decoded fields stand behind those that were there, one for each member. -/
theorem holdsFields_of_decodeFields (limit : ℕ) (members : List (String × FieldType))
    (scope : ScopeId) {s s' : DecodeState} (hscope : scope < s.scopes.arena.scopes.size)
    (h : decodeFields limit members scope s = .ok () s') :
    ∃ fs, s'.scopes.arena.fields scope = s.scopes.arena.fields scope ++ fs ∧
      s'.scopes.arena.HoldsFields s.scopes.arena.scopes.size s'.scopes.arena.scopes.size members
        fs := by
  match members with
  | [] =>
    cases h
    exact ⟨[], (List.append_nil _).symm, rfl⟩
  | (name, t) :: rest =>
    rw [decodeFields] at h
    obtain ⟨f, s₁, hfield, h⟩ := ok_of_bind h
    obtain ⟨_, s₂, hbind, h⟩ := ok_of_bind h
    cases hbind
    obtain ⟨s₀, halign, hvalue, hname, htype⟩ := of_named_ok hfield
    have hholds := holds_of_decodeValue limit t scope name hvalue
    rw [scopes_of_align halign] at hholds
    have hgrows := (named_grows t name (decodeValue_grows limit t scope name)).of_ok hfield
    have hbound := (grows_bindField scope f).of_ok (s := s₁) rfl
    have hmore := (decodeFields_grows limit rest scope).of_ok h
    have hscope₁ : scope < s₁.scopes.arena.scopes.size := Nat.lt_of_lt_of_le hscope hgrows.size
    have hscope₂ := Nat.lt_of_lt_of_le hscope₁ hbound.size
    obtain ⟨fs, hfs, hrest⟩ := holdsFields_of_decodeFields limit rest scope hscope₂ h
    refine ⟨f :: fs, ?_, f, fs, rfl, ⟨hname, htype, ?_⟩, ?_⟩
    · rw [hfs, Arena.fields_insert_self hscope₁,
        Arena.fields_congr (hgrows.scope scope hscope (by simp)), List.append_assoc]
      rfl
    · refine hholds.of_agree (Nat.le_refl _) (Nat.le_trans hbound.size hmore.size) ?_
      -- Behind the value, fields have been bound in `scope` only, which lies before its scopes.
      intro i hge hlt
      have hne : some scope ≠ some i := by
        intro hi
        cases hi
        exact Nat.not_lt.mpr hge hscope
      have hlt₂ := Nat.lt_of_lt_of_le hlt hbound.size
      exact (hmore.scope i hlt₂ hne).trans (hbound.scope i hlt hne)
    · exact hrest.of_agree (Nat.le_trans hgrows.size hbound.size) (Nat.le_refl _) fun _ _ _ => rfl
termination_by structural members

end

end FieldType

end Decoding

end CommonTrace
