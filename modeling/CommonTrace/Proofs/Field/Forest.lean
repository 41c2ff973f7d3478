import CommonTrace.Proofs.Field.Stages

/-!
# Scopes form a forest

A structure lies in the scope from which it was decoded, also where it is an element of an array, or the
alternative of a variant: elements and alternatives have no scope of their own.  The scope of the structure
is opened first, then its fields are bound in it, and only when all of them are there does the field that
points at it come into the scope around.  A decoding that fails in between leaves scopes behind that
nothing points at.

`Arena.Forest` holds in spite of this: a scope lies in one that was opened before it, and whatever is
pointed at from a scope lies in it and is pointed at once.  What keeps a forest is said by
`DecodeM.Plants`, for a step that also gives something that points at scopes: these are new, and lie in the
scope for which the step is performed.  For types it is proved once, by induction, in
`FieldType.decodeValue_plants`.
-/

namespace CommonTrace

/-! ## The structures in a value -/

mutual

/-- The scopes of the structures in a value, also of those in arrays, sequences and variants. -/
def Value.pointers (value : Value) : List ScopeId :=
  match value with
  | .struct scope => [scope]
  | .variant _ inner => inner.pointers
  | .array elements => Field.pointersOf elements
  | .sequence elements => Field.pointersOf elements
  | .integer _ | .float _ | .text _ | .enum _ _ => []
termination_by structural value

/-- The scopes of the structures in the value of a field. -/
def Field.pointers (field : Field) : List ScopeId :=
  match field with
  | ⟨_, _, value⟩ => value.pointers
termination_by structural field

/-- The scopes of the structures in some fields. -/
def Field.pointersOf (fields : List Field) : List ScopeId :=
  match fields with
  | [] => []
  | field :: rest => field.pointers ++ Field.pointersOf rest
termination_by structural fields

end

lemma Field.pointers_eq (f : Field) : f.pointers = f.value.pointers := by
  cases f
  rfl

lemma Field.pointersOf_append (fs gs : List Field) :
    Field.pointersOf (fs ++ gs) = Field.pointersOf fs ++ Field.pointersOf gs := by
  induction fs with
  | nil => rfl
  | cons f fs ih => rw [List.cons_append, pointersOf, pointersOf, ih, List.append_assoc]

lemma Field.mem_pointersOf {fs : List Field} {i : ScopeId} :
    i ∈ Field.pointersOf fs ↔ ∃ f ∈ fs, i ∈ f.pointers := by
  induction fs with
  | nil => simp [pointersOf]
  | cons f fs ih => simp [pointersOf, ih]

namespace Arena

variable {a a' : Arena} {scope : ScopeId} {bound bound' : ℕ} {ids ids' : List ScopeId}

lemma lt_size_of_parent? {i p : ScopeId} (h : a.parent? i = some p) : i < a.scopes.size := by
  by_contra hge
  simp [parent?, Array.getElem?_eq_none (Nat.le_of_not_lt hge)] at h

/-! ## Branches of a scope -/

/-- The scopes `ids` lie in `scope`, none of them is there twice, and none was there before `bound`. -/
structure Branches (a : Arena) (scope bound : ℕ) (ids : List ScopeId) : Prop where
  nodup : ids.Nodup
  parent : ∀ i ∈ ids, a.parent? i = some scope
  le : ∀ i ∈ ids, bound ≤ i

namespace Branches

lemma nil : a.Branches scope bound [] :=
  ⟨.nil, by simp, by simp⟩

lemma lt_size (h : a.Branches scope bound ids) {i : ScopeId} (hi : i ∈ ids) : i < a.scopes.size :=
  lt_size_of_parent? (h.parent i hi)

lemma of_le (h : a.Branches scope bound ids) (hbound : bound' ≤ bound) : a.Branches scope bound' ids :=
  { h with le := fun i hi => Nat.le_trans hbound (h.le i hi) }

/-- Branches stay where they are if no scope comes to lie elsewhere. -/
lemma of_parent (h : a.Branches scope bound ids)
    (hparent : ∀ i < a.scopes.size, a'.parent? i = a.parent? i) : a'.Branches scope bound ids :=
  { h with parent := fun i hi => (hparent i (h.lt_size hi)).trans (h.parent i hi) }

/-- Branches that come later are different ones. -/
lemma append (h : a.Branches scope bound ids) (h' : a.Branches scope bound' ids')
    (hbound : bound ≤ bound') (hlt : ∀ i ∈ ids, i < bound') : a.Branches scope bound (ids ++ ids') where
  nodup := by
    refine List.nodup_append.mpr ⟨h.nodup, h'.nodup, fun i hi j hj heq => ?_⟩
    exact Nat.not_le.mpr (heq ▸ hlt i hi) (h'.le j hj)
  parent i hi := (List.mem_append.mp hi).elim (h.parent i) (h'.parent i)
  le i hi := (List.mem_append.mp hi).elim (h.le i) fun hi => Nat.le_trans hbound (h'.le i hi)

end Branches

/-! ## Forests -/

/-- **A forest of scopes.**  A scope lies in one that was opened before it, and the structures of its fields
are scopes that lie in it and were opened after it, each of them once. -/
structure Forest (a : Arena) : Prop where
  parent_lt : ∀ {i p}, a.parent? i = some p → p < i
  branches : ∀ scope, a.Branches scope (scope + 1) (Field.pointersOf (a.fields scope))

namespace Forest

lemma empty : Arena.empty.Forest where
  parent_lt h := by cases h
  branches _ := .nil

/-- A scope that has just been opened has no fields, and nothing points at it. -/
lemma push (h : a.Forest) {name : String} {parent : Option ScopeId}
    (hparent : ∀ p, parent = some p → p < a.scopes.size)
    (hscopes : a'.scopes = a.scopes.push ⟨name, parent, #[]⟩) : a'.Forest where
  parent_lt {i p} hp := by
    rcases Nat.lt_trichotomy i a.scopes.size with hlt | rfl | hgt
    · refine h.parent_lt ((parent?_congr ?_).symm.trans hp)
      rw [hscopes, Array.getElem?_push, if_neg (Nat.ne_of_lt hlt)]
    · refine hparent p ?_
      simpa [parent?, hscopes] using hp
    · have hlt := lt_size_of_parent? hp
      rw [hscopes, Array.size_push] at hlt
      exact absurd hgt (Nat.not_lt.mpr (Nat.le_of_lt_succ hlt))
  branches scope := by
    have hold : ∀ i ≠ a.scopes.size, a'.scopes[i]? = a.scopes[i]? := fun i hi => by
      rw [hscopes, Array.getElem?_push, if_neg hi]
    have hfields : a'.fields scope = a.fields scope := by
      by_cases hscope : scope = a.scopes.size
      · subst hscope
        simp [fields, hscopes]
      · exact fields_congr (hold scope hscope)
    rw [hfields]
    exact (h.branches scope).of_parent fun i hi => parent?_congr (hold i (Nat.ne_of_lt hi))

lemma openBlock (h : a.Forest) (block : StaticScope) : (a.openBlock block).2.Forest :=
  h.push (fun _ hp => by cases hp) rfl

lemma openChild (h : a.Forest) {parent : ScopeId} (hparent : parent < a.scopes.size) (name : String) :
    (a.openChild parent name).2.Forest :=
  h.push (fun _ hp => Option.some.inj hp ▸ hparent) rfl

/-- A field may be bound in a scope if it points at scopes that lie there and are opened later than those
that are pointed at already. -/
lemma insert (h : a.Forest) (hscope : scope < bound) (hsize : scope < a.scopes.size) {f : Field}
    (hnew : a.Branches scope bound f.pointers)
    (hlt : ∀ i ∈ Field.pointersOf (a.fields scope), i < bound) : (a.insert scope f).Forest := by
  have hparent : ∀ i, (a.insert scope f).parent? i = a.parent? i := by
    intro i
    by_cases hi : scope = i
    · rw [← hi, parent?_insert]
    · exact parent?_congr (scopes_insert_of_ne hi)
  refine ⟨fun {i p} hp => h.parent_lt ((hparent i).symm.trans hp), fun other => ?_⟩
  refine Branches.of_parent ?_ fun i _ => hparent i
  by_cases hother : scope = other
  · subst hother
    rw [fields_insert_self hsize, Field.pointersOf_append]
    refine (h.branches scope).append ?_ hscope hlt
    simpa [Field.pointersOf] using hnew
  · rw [fields_congr (scopes_insert_of_ne hother)]
    exact h.branches other

end Forest

end Arena

/-! ## Steps that keep a forest -/

namespace DecodeM

variable {α β : Type} {scope : ScopeId} {bound : ℕ} {pointers : α → List ScopeId} {s : DecodeState}

/-- From the state `s`, the step leaves a forest behind, whether it succeeds or fails, and what it gives
points at scopes that lie in `scope` and that were not there before `bound`. -/
structure PlantsFrom (s : DecodeState) (scope : ScopeId) (bound : ℕ) (pointers : α → List ScopeId)
    (m : DecodeM α) : Prop where
  ok : ∀ {a s'}, m s = .ok a s' →
    s'.scopes.arena.Forest ∧ s'.scopes.arena.Branches scope bound (pointers a)
  error : ∀ {e s'}, m s = .error e s' → s'.scopes.arena.Forest

/-- **A step that keeps a forest**, whatever forest it is performed in, and gives what points at scopes
opened on the way. -/
def Plants (scope : ScopeId) (pointers : α → List ScopeId) (m : DecodeM α) : Prop :=
  ∀ s, s.scopes.arena.Forest → scope < s.scopes.arena.scopes.size →
    PlantsFrom s scope s.scopes.arena.scopes.size pointers m

/-- The step leaves the scopes as they are. -/
abbrev Still (m : DecodeM α) : Prop :=
  m.Leads DecodeState.SameScopes

lemma Still.scopes_error {m : DecodeM α} (h : m.Still) {e : DecodeError} {s' : DecodeState}
    (hm : m s = .error e s') : s'.scopes = s.scopes := by
  have hsame : s.SameScopes (m.final s) := h s
  rwa [final, hm] at hsame

namespace Plants

lemma pure {a : α} (ha : pointers a = []) : (Pure.pure a : DecodeM α).Plants scope pointers := by
  refine fun s hforest _ => ⟨fun {b s'} h => ?_, nofun⟩
  cases h
  rw [ha]
  exact ⟨hforest, .nil⟩

lemma throw (e : DecodeError) : (MonadExcept.throw e : DecodeM α).Plants scope pointers := by
  refine fun s hforest _ => ⟨nofun, fun {e s'} h => ?_⟩
  cases h
  exact hforest

/-- Where the scopes have been left as they are, nothing has changed for the next step. -/
lemma after {m : DecodeM β} {k : β → DecodeM α} (hm : m.Still)
    (hk : ∀ b, (k b).Plants scope pointers) : (m >>= k).Plants scope pointers := by
  intro s hforest hscope
  refine ⟨fun {a s'} h => ?_, fun {e s'} h => ?_⟩
  · obtain ⟨b, s₁, hb, ha⟩ := ok_of_bind h
    have hsame : s₁.scopes = s.scopes := hm.of_ok hb
    have hplants := (hk b s₁ (by rwa [hsame]) (by rwa [hsame])).ok ha
    rwa [hsame] at hplants
  · obtain hb | ⟨b, s₁, hb, ha⟩ := error_of_bind h
    · rw [hm.scopes_error hb]
      exact hforest
    · have hsame : s₁.scopes = s.scopes := hm.of_ok hb
      exact (hk b s₁ (by rwa [hsame]) (by rwa [hsame])).error ha

lemma of_still {m : DecodeM α} (h : m.Still) : m.Plants scope fun _ => [] := by
  rw [← bind_pure m]
  exact after h fun _ => pure rfl

lemma map {m : DecodeM α} {f : α → β} {pointers' : β → List ScopeId}
    (h : m.Plants scope pointers) (hf : ∀ a, pointers' (f a) = pointers a) :
    (f <$> m).Plants scope pointers' := by
  intro s hforest hscope
  refine ⟨fun {b s'} hm => ?_, fun {e s'} hm => ?_⟩
  · obtain ⟨a, ha, rfl⟩ := ok_of_map hm
    rw [hf]
    exact (h s hforest hscope).ok ha
  · rw [map_eq_pure_bind] at hm
    obtain hm | ⟨a, s₁, -, ha⟩ := error_of_bind hm
    · exact (h s hforest hscope).error hm
    · cases ha

/-- Two steps for the same scope, of which the first gives nothing that points at scopes. -/
lemma bind {m : DecodeM β} {k : β → DecodeM α} {into : Option ScopeId}
    (hm : m.Plants scope fun _ => []) (hgrows : m.Grows into)
    (hk : ∀ b, (k b).Plants scope pointers) : (m >>= k).Plants scope pointers := by
  intro s hforest hscope
  refine ⟨fun {a s'} h => ?_, fun {e s'} h => ?_⟩
  · obtain ⟨b, s₁, hb, ha⟩ := ok_of_bind h
    have hforest₁ := ((hm s hforest hscope).ok hb).1
    have hsize := (hgrows.of_ok hb).size
    have hplants := (hk b s₁ hforest₁ (Nat.lt_of_lt_of_le hscope hsize)).ok ha
    exact ⟨hplants.1, hplants.2.of_le hsize⟩
  · obtain hb | ⟨b, s₁, hb, ha⟩ := error_of_bind h
    · exact (hm s hforest hscope).error hb
    · have hforest₁ := ((hm s hforest hscope).ok hb).1
      have hsize := (hgrows.of_ok hb).size
      exact (hk b s₁ hforest₁ (Nat.lt_of_lt_of_le hscope hsize)).error ha

/-- A field that is decoded for a scope may be bound there. -/
lemma bindField {m : DecodeM Field} (hm : m.Plants scope Field.pointers) (hgrows : m.Grows none) :
    (m >>= DecodeM.bindField scope).Plants scope fun _ => [] := by
  intro s hforest hscope
  refine ⟨fun {_ s'} h => ?_, fun {e s'} h => ?_⟩
  · obtain ⟨f, s₁, hf, hbind⟩ := ok_of_bind h
    cases hbind
    obtain ⟨hforest₁, hbranches⟩ := (hm s hforest hscope).ok hf
    have hgrows₁ := hgrows.of_ok hf
    refine ⟨hforest₁.insert hscope (Nat.lt_of_lt_of_le hscope hgrows₁.size) hbranches ?_, .nil⟩
    rw [Arena.fields_congr (hgrows₁.scope scope hscope (by simp))]
    exact fun i hi => (hforest.branches scope).lt_size hi
  · obtain hf | ⟨f, s₁, hf, hbind⟩ := error_of_bind h
    · exact (hm s hforest hscope).error hf
    · cases hbind

/-- A scope is opened in another, and everything else is done for the new one. -/
lemma openChild {m : ScopeId → DecodeM Unit} {name : String}
    (hm : ∀ inner, (m inner).Plants inner fun _ => []) (hgrows : ∀ inner, (m inner).Grows (some inner)) :
    (DecodeM.openChild scope name >>= fun inner => m inner >>= fun _ => Pure.pure (Value.struct inner)).Plants
      scope Value.pointers := by
  intro s hforest hscope
  let inner := s.scopes.arena.scopes.size
  let s₁ := (DecodeM.openChild scope name).final s
  have hopened : s₁.scopes.arena.Forest := hforest.openChild hscope name
  have hinner : inner < s₁.scopes.arena.scopes.size := by
    simp [inner, s₁, final, DecodeM.openChild, Arena.openChild]
  have hplants := hm inner s₁ hopened hinner
  refine ⟨fun {v s'} h => ?_, fun {e s'} h => ?_⟩
  · obtain ⟨_, s₂, hok, hreturn⟩ := ok_of_bind (m := m inner) (s := s₁) h
    cases hreturn
    refine ⟨(hplants.ok hok).1, List.nodup_singleton _, fun i hi => ?_, fun i hi => ?_⟩
    · obtain rfl := List.mem_singleton.mp hi
      rw [((hgrows inner).of_ok hok).parent inner hinner]
      simp [inner, s₁, final, DecodeM.openChild, Arena.openChild, Arena.parent?]
    · exact Nat.le_of_eq (List.mem_singleton.mp hi).symm
  · obtain herror | ⟨_, s₂, -, hreturn⟩ := error_of_bind (m := m inner) (s := s₁) h
    · exact hplants.error herror
    · cases hreturn

/-- Elements that are decoded for the same scope one after the other point at different scopes there.  Those
decoded so far stand in `before`, in reverse order, and what they point at was not there before `bound`. -/
lemma collectFrom {step : ℕ → DecodeM Field} (h : ∀ index, (step index).Plants scope Field.pointers)
    (hgrows : ∀ index, (step index).Grows none) (count index : ℕ) (before : List Field)
    (hforest : s.scopes.arena.Forest) (hscope : scope < s.scopes.arena.scopes.size)
    (hbound : bound ≤ s.scopes.arena.scopes.size)
    (hbefore : s.scopes.arena.Branches scope bound (Field.pointersOf before.reverse)) :
    PlantsFrom s scope bound Field.pointersOf (CommonTrace.collectFrom step index before count) := by
  induction count generalizing index before s with
  | zero =>
    refine ⟨fun hm => ?_, fun hm => by cases hm⟩
    cases hm
    exact ⟨hforest, hbefore⟩
  | succ count ih =>
    have hrest : ∀ {f s₁}, step index s = .ok f s₁ →
        PlantsFrom s₁ scope bound Field.pointersOf
          (CommonTrace.collectFrom step (index + 1) (f :: before) count) := by
      intro f s₁ hf
      obtain ⟨hforest₁, hbranches⟩ := (h index s hforest hscope).ok hf
      have hgrows₁ := (hgrows index).of_ok hf
      refine ih (index + 1) (f :: before) hforest₁ (Nat.lt_of_lt_of_le hscope hgrows₁.size)
        (Nat.le_trans hbound hgrows₁.size) ?_
      rw [List.reverse_cons, Field.pointersOf_append]
      refine (hbefore.of_parent hgrows₁.parent).append ?_ hbound fun i hi => hbefore.lt_size hi
      simpa [Field.pointersOf] using hbranches
    refine ⟨fun hm => ?_, fun hm => ?_⟩
    · obtain ⟨f, s₁, hf, hok⟩ := ok_of_bind hm
      exact (hrest hf).ok hok
    · obtain hf | ⟨f, s₁, hf, herror⟩ := error_of_bind hm
      · exact (h index s hforest hscope).error hf
      · exact (hrest hf).error herror

lemma collectElements {decodeElement : String → DecodeM Field}
    (h : ∀ name, (decodeElement name).Plants scope Field.pointers)
    (hgrows : ∀ name, (decodeElement name).Grows none) (count : ℕ) :
    (CommonTrace.collectElements count decodeElement).Plants scope Field.pointersOf :=
  fun _ hforest hscope =>
    collectFrom (fun index => h (toString index)) (fun index => hgrows (toString index)) count 0 []
      hforest hscope (Nat.le_refl _) .nil

end Plants

end DecodeM

/-! ## Values -/

namespace FieldType

open DecodeM

lemma named_plants (t : FieldType) {scope : ScopeId} (name : String) {value : DecodeM Value}
    (h : value.Plants scope Value.pointers) : (t.named name value).Plants scope Field.pointers := by
  refine Plants.after (leads_align _) fun _ => ?_
  rw [bind_pure_comp]
  exact h.map fun _ => rfl

mutual

/-- **Decoding a value keeps a forest**: the structures in the value lie in the scope for which it is
decoded, and nothing else points at them. -/
theorem decodeValue_plants (limit : ℕ) (t : FieldType) (scope : ScopeId) (name : String) :
    (decodeValue limit t scope name).Plants scope Value.pointers := by
  match t with
  | .integer t => exact (Plants.of_still t.read_leads).map fun _ => rfl
  | .float t => exact (Plants.of_still t.read_leads).map fun _ => rfl
  | .string _ => exact (Plants.of_still readString_leads).map fun _ => rfl
  | .enum t => exact .after t.container.read_leads fun _ => .pure rfl
  | .array element length =>
    have helement := fun index =>
      named_plants element index (decodeValue_plants limit element scope index)
    have hgrows := fun index =>
      named_grows element index (decodeValue_grows limit element scope index)
    rw [decodeValue]
    refine .after (checkLength_leads limit name length) fun _ => ?_
    split
    · exact (Plants.of_still (readText_leads length)).map fun _ => rfl
    · exact (Plants.collectElements helement hgrows _).map fun _ => rfl
  | .sequence element path =>
    have helement := fun index =>
      named_plants element index (decodeValue_plants limit element scope index)
    have hgrows := fun index =>
      named_grows element index (decodeValue_grows limit element scope index)
    rw [decodeValue]
    refine .after (sequenceLength_leads scope path name) fun length => ?_
    refine .after (checkLength_leads limit name length) fun _ => ?_
    split
    · exact (Plants.of_still (readText_leads length)).map fun _ => rfl
    · exact (Plants.collectElements helement hgrows _).map fun _ => rfl
  | .struct _ fields =>
    rw [decodeValue]
    exact .openChild (decodeFields_plants limit fields) (decodeFields_grows limit fields)
  | .variant none _ => exact .throw _
  | .variant (some tag) alternatives =>
    rw [decodeValue]
    refine .after (selectedName_leads scope tag name) fun selection => ?_
    exact (decodeAlternative_plants limit alternatives selection scope name).map fun _ => rfl
termination_by structural t

/-- Decoding the fields of a structure keeps a forest. -/
theorem decodeFields_plants (limit : ℕ) (fields : List (String × FieldType)) (scope : ScopeId) :
    (decodeFields limit fields scope).Plants scope fun _ => [] := by
  match fields with
  | [] => exact .pure rfl
  | (name, t) :: rest =>
    have hnamed := named_plants t name (decodeValue_plants limit t scope name)
    have hgrows := named_grows t name (decodeValue_grows limit t scope name)
    have hboth := Leads.bind (hgrows.weaken _) fun field => grows_bindField scope field
    rw [decodeFields, ← bind_assoc]
    exact (hnamed.bindField hgrows).bind hboth fun _ => decodeFields_plants limit rest scope
termination_by structural fields

theorem decodeAlternative_plants (limit : ℕ) (alternatives : List (String × FieldType))
    (selection : String) (scope : ScopeId) (name : String) :
    (decodeAlternative limit alternatives selection scope name).Plants scope Field.pointers := by
  match alternatives with
  | [] => exact .throw _
  | (alternative, t) :: rest =>
    rw [decodeAlternative]
    split
    · exact named_plants t selection (decodeValue_plants limit t scope selection)
    · exact decodeAlternative_plants limit rest selection scope name
termination_by structural alternatives

end

lemma decodeContents_plants (limit : ℕ) (t : FieldType) (block : StaticScope) (scope : ScopeId) :
    (decodeContents limit t block scope).Plants scope fun _ => [] := by
  have hother : (t.decode limit scope block.name >>= DecodeM.bindField scope).Plants scope fun _ => [] :=
    (named_plants t block.name (decodeValue_plants limit t scope block.name)).bindField
      (decode_grows limit t scope block.name)
  cases t with
  | struct least fields =>
    exact .after (leads_align _) fun _ => decodeFields_plants limit fields scope
  | _ => exact hother

/-- **Decoding a block keeps a forest**, also if it fails. -/
theorem forest_of_decodeBlock (limit : ℕ) (t : FieldType) (block : StaticScope) {s : DecodeState}
    (h : s.scopes.arena.Forest) : ((t.decodeBlock limit block).final s).scopes.arena.Forest := by
  let root := s.scopes.arena.scopes.size
  let s₁ := (DecodeM.openBlock block).final s
  have hroot : root < s₁.scopes.arena.scopes.size := by
    simp [root, s₁, final, DecodeM.openBlock, Arena.openBlock]
  have hcontents := decodeContents_plants limit t block root s₁ (h.openBlock block) hroot
  unfold final
  cases hblock : t.decodeBlock limit block s with
  | ok scope s' =>
    obtain ⟨_, s₂, hok, hreturn⟩ := ok_of_bind (m := t.decodeContents limit block root) (s := s₁) hblock
    cases hreturn
    exact (hcontents.ok hok).1
  | error e s' =>
    obtain herror | ⟨_, s₂, -, hreturn⟩ :=
      error_of_bind (m := t.decodeContents limit block root) (s := s₁) hblock
    · exact hcontents.error herror
    · cases hreturn

end FieldType

end CommonTrace
