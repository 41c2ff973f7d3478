import CommonTrace.Proofs.Field.Conformance

/-!
# The last integer of a name stays what it is

The time of an event is looked up when its header has been decoded: it is the last integer of a name in
the scope of the header and in the scopes of the structures in there.  All these scopes have been opened
by then, one inside the other, and none of them is written to any more.  So the same integer is found in
the arena of the whole event, although that has more scopes and is searched more deeply
(`FieldType.lastInteger?_of_decodeBlock`).

How deep the search goes makes no difference either, as long as it is no less than the number of scopes
that were opened for a value; `Stand.Spans` combines the two.
-/

namespace CommonTrace

namespace Stand

/-- The number of scopes that have been opened. -/
def count (p : Stand) : ℕ :=
  p.scopes.arena.scopes.size

@[simp] lemma count_aligned (p : Stand) (alignment : ℕ) : (p.aligned alignment).count = p.count :=
  rfl

@[simp] lemma count_opened (p : Stand) (parent : ScopeId) (name : String) :
    (p.opened parent name).count = p.count + 1 := by
  simp [count, opened, ScopeChain.opened, Arena.openChild]

@[simp] lemma count_bound (p : Stand) (scope : ScopeId) (f : Field) :
    (p.bound scope f).count = p.count := by
  simp [count, bound, ScopeChain.bound, Arena.insert]

/-- **A search between two places of a decoding.**  What it finds depends only on the scopes that were
opened from one place to the other, and it need not go deeper than there are such scopes. -/
structure Spans {β : Type} (a a' : Arena) (p p' : Stand) (search : Arena → ℕ → β) : Prop where
  le : p.count ≤ p'.count
  eq : (∀ i, p.count ≤ i → i < p'.count → a'.scopes[i]? = a.scopes[i]?) →
    ∀ d d', p'.count - p.count ≤ d → p'.count - p.count ≤ d' → search a' d' = search a d

end Stand

namespace Arena

/-- The last integer of a name in a field. -/
def lastOf (name : String) (f : Field) (a : Arena) (depth : ℕ) : Option Field :=
  lastIntegerIn? name (a.lastIntegerWithin? name depth) f

/-- The last integer of a name in some fields, or what had been found before. -/
def lastAmong (name : String) (fs : List Field) (a : Arena) (depth : ℕ) (found : Option Field) :
    Option Field :=
  fs.foldl (fun found f => (a.lastOf name f depth).or found) found

end Arena

namespace FieldType

open Arena

variable {limit : ℕ} {data : ByteArray} {a a' : Arena}

/-- Nothing is found in what is no integer, structure or variant. -/
lemma spans_of_le {p p' : Stand} {key : String} {f : Field}
    (hle : p.count ≤ p'.count)
    (hsame : ∀ (b b' : Arena) (d d' : ℕ), b'.lastOf key f d' = b.lastOf key f d) :
    p.Spans a a' p' (fun b d => b.lastOf key f d) :=
  ⟨hle, fun _ d d' _ _ => hsame a a' d d'⟩

lemma le_of_eachConforms {p p' : Stand} {element : FieldType} {scope : ScopeId} {index : ℕ}
    {fs : List Field}
    (hle : ∀ {p p' : Stand} {name : String} {v : Value},
      Conforms limit data a p element scope name v p' → p.count ≤ p'.count)
    (h : EachConforms limit data a p element scope index fs p') :
    p.count ≤ p'.count := by
  induction fs generalizing p index with
  | nil =>
    cases h
    exact Nat.le_refl _
  | cons f fs ih =>
    cases h with
    | cons first others =>
      cases first with
      | mk name_eq type_eq value =>
        have haligned := hle value
        exact Nat.le_trans haligned (ih others)

/-- Elements are not searched. -/
lemma spans_of_elements {p p' : Stand} {element : FieldType} {scope : ScopeId} {length : ℕ}
    {collect : List Field → Value} {v : Value} {key own : String} {type : FieldType}
    (hle : ∀ {p p' : Stand} {name : String} {v : Value},
      Conforms limit data a p element scope name v p' → p.count ≤ p'.count)
    (hcollect : ∀ fs inScope, lastIntegerIn? key inScope ⟨own, type, collect fs⟩ = none)
    (h : ElementsConform limit data a p element scope length collect v p') :
    p.Spans a a' p' (fun b d => b.lastOf key ⟨own, type, v⟩ d) := by
  cases h with
  | text => exact spans_of_le (Nat.le_refl _) fun _ _ _ _ => rfl
  | values _ each =>
    apply spans_of_le (le_of_eachConforms hle each)
    intro b b' d d'
    rw [lastOf, lastOf, hcollect, hcollect]

/-- The scope of a structure is the first of its scopes, and those of its fields follow. -/
lemma spans_of_fields {p p' : Stand} {scope : ScopeId} {name key own : String} {type : FieldType}
    (h : (p.opened scope name).Spans a a' p'
      (fun b d => b.lastAmong key (a.fields p.scopes.nextScope) d)) :
    p.Spans a a' p' (fun b d => b.lastOf key ⟨own, type, .struct p.scopes.nextScope⟩ d) := by
  obtain ⟨hle, hmembers⟩ := h
  simp only [Stand.count_opened] at hle hmembers
  refine ⟨by omega, fun hsame d d' hd hd' => ?_⟩
  obtain ⟨d, rfl⟩ : ∃ n, d = n + 1 := ⟨d - 1, by omega⟩
  obtain ⟨d', rfl⟩ : ∃ n, d' = n + 1 := ⟨d' - 1, by omega⟩
  have hfields : a'.fields p.count = a.fields p.count :=
    fields_congr (hsame _ (Nat.le_refl _) (by omega))
  have hsearch := hmembers (fun i hge hlt => hsame i (by omega) hlt) d d' (by omega) (by omega)
  have hfound := congrFun hsearch none
  change a'.lastAmong key (a'.fields p.count) d' none = _
  rw [hfields]
  exact hfound

/-- Behind a field the others are searched, with what has been found in it. -/
lemma spans_of_cons {p p₁ p' : Stand} {alignment : ℕ} {scope : ScopeId} {key : String} {f : Field}
    {fs : List Field} (hfirst : (p.aligned alignment).Spans a a' p₁ (fun b d => b.lastOf key f d))
    (hothers : (p₁.bound scope f).Spans a a' p' (fun b d => b.lastAmong key fs d)) :
    p.Spans a a' p' (fun b d => b.lastAmong key (f :: fs) d) := by
  obtain ⟨hle₁, hfirst⟩ := hfirst
  obtain ⟨hle₂, hothers⟩ := hothers
  simp only [Stand.count_aligned, Stand.count_bound] at hle₁ hfirst hle₂ hothers
  refine ⟨by omega, fun hsame d d' hd hd' => ?_⟩
  have hfound := hfirst (fun i hge hlt => hsame i hge (by omega)) d d' (by omega) (by omega)
  have hsearch := hothers (fun i hge hlt => hsame i (by omega) hlt) d d' (by omega) (by omega)
  funext found
  change a'.lastAmong key fs d' ((a'.lastOf key f d').or found) = _
  rw [congrFun hsearch, hfound]
  rfl

mutual

theorem spans_of_conforms (t : FieldType) (key own : String) (type : FieldType) {p p' : Stand}
    {scope : ScopeId} {name : String} {v : Value}
    (h : Conforms limit data a p t scope name v p') :
    p.Spans a a' p' (fun b d => b.lastOf key ⟨own, type, v⟩ d) := by
  match t with
  | .integer _ =>
    cases h
    exact spans_of_le (Nat.le_refl _) fun _ _ _ _ => rfl
  | .float _ =>
    cases h
    exact spans_of_le (Nat.le_refl _) fun _ _ _ _ => rfl
  | .string _ =>
    cases h
    exact spans_of_le (Nat.le_refl _) fun _ _ _ _ => rfl
  | .enum _ =>
    cases h
    exact spans_of_le (Nat.le_refl _) fun _ _ _ _ => rfl
  | .array element length =>
    cases h with
    | array _ contents =>
      exact spans_of_elements (fun h => (spans_of_conforms element key own type h).le)
        (fun _ _ => rfl) contents
  | .sequence element path =>
    cases h with
    | sequence _ _ _ contents =>
      exact spans_of_elements (fun h => (spans_of_conforms element key own type h).le)
        (fun _ _ => rfl) contents
  | .struct least members =>
    cases h with
    | struct fields =>
      exact spans_of_fields (spans_of_fieldsConform members key fields)
  | .variant none _ => cases h
  | .variant (some tag) alternatives =>
    cases h with
    | variant _ _ alternative conforms =>
      exact spans_of_alternative alternatives key own type alternative conforms
termination_by structural t

theorem spans_of_fieldsConform (members : List (String × FieldType)) (key : String) {p p' : Stand}
    {scope : ScopeId} {fs : List Field}
    (h : FieldsConform limit data a p members scope fs p') :
    p.Spans a a' p' (fun b d => b.lastAmong key fs d) := by
  match members with
  | [] =>
    cases h
    exact ⟨Nat.le_refl _, fun _ _ _ _ _ => rfl⟩
  | (name, t) :: rest =>
    cases h with
    | cons first others =>
      cases first with
      | mk name_eq type_eq value =>
        rename_i p₁ f fs
        obtain ⟨own, type, v⟩ := f
        have hfirst := spans_of_conforms t key own type value
        exact spans_of_cons hfirst (spans_of_fieldsConform rest key others)
termination_by structural members

theorem spans_of_alternative (alternatives : List (String × FieldType)) (key own : String)
    (type : FieldType) {p p' : Stand} {scope : ScopeId} {selection : String} {t : FieldType}
    {inner : Field} (hlookup : alternatives.lookup selection = some t)
    (h : FieldConforms limit data a p t scope selection inner p') :
    p.Spans a a' p' (fun b d => b.lastOf key ⟨own, type, .variant selection inner⟩ d) := by
  match alternatives with
  | [] => cases hlookup
  | (alternative, u) :: rest =>
    by_cases hselected : selection = alternative
    · obtain rfl : u = t := by simpa [List.lookup_cons, hselected] using hlookup
      cases h with
      | mk name_eq type_eq value =>
        obtain ⟨innerName, innerType, v⟩ := inner
        obtain ⟨hle, heq⟩ := spans_of_conforms u key innerName innerType value
        refine ⟨hle, fun hsame d d' hd hd' => ?_⟩
        have hfound := heq hsame d d' hd hd'
        simpa only [lastOf, lastIntegerIn?] using hfound
    · have hne : (selection == alternative) = false := by simpa using hselected
      rw [List.lookup_cons, hne] at hlookup
      exact spans_of_alternative rest key own type hlookup h
termination_by structural alternatives

end

/-! ## Blocks -/

open DecodeM

/-- What a block holds conforms, one field for each member of a structure, or a single one. -/
lemma exists_conforms_of_decodeContents {t : FieldType} {block : StaticScope} {scope : ScopeId}
    {s s' : DecodeState} (h : t.decodeContents limit block scope s = .ok () s')
    (hscope : scope < s.scopes.arena.scopes.size) (hempty : s.scopes.arena.fields scope = []) :
    ∃ members p, p.count = s.stand.count ∧
      FieldsConform limit s.cursor.data s'.scopes.arena p members scope
        (s'.scopes.arena.fields scope) s'.stand := by
  have hfields : ∀ {members : List (String × FieldType)} {s₁ : DecodeState},
      s₁.scopes = s.scopes → s₁.cursor.data = s.cursor.data →
      decodeFields limit members scope s₁ = .ok () s' →
        FieldsConform limit s.cursor.data s'.scopes.arena s₁.stand members scope
          (s'.scopes.arena.fields scope) s'.stand := by
    intro members s₁ hscopes hdata hdecode
    rw [← hscopes] at hscope hempty
    rw [← hdata]
    exact fieldsConform_of_empty hdecode hscope hempty fun _ _ _ => rfl
  have hother : (t.decode limit scope block.name >>= bindField scope) s = .ok () s' →
      ∃ members p, p.count = s.stand.count ∧
        FieldsConform limit s.cursor.data s'.scopes.arena p members scope
          (s'.scopes.arena.fields scope) s'.stand := by
    intro hdecode
    refine ⟨[(block.name, t)], s.stand, rfl, hfields rfl rfl ?_⟩
    obtain ⟨f, s₁, hfirst, hbind⟩ := ok_of_bind hdecode
    rw [decodeFields]
    change t.named block.name (decodeValue limit t scope block.name) s = .ok f s₁ at hfirst
    rw [bind_of_ok hfirst, bind_of_ok hbind]
    rfl
  cases t with
  | struct least members =>
    obtain ⟨_, s₁, halign, hdecode⟩ := ok_of_bind h
    have hmoved := movedTo_of_align halign
    refine ⟨members, s₁.stand, ?_, hfields hmoved.scopes hmoved.cursor.data hdecode⟩
    rw [hmoved.stand]
    rfl
  | _ => exact hother h

/-- **The last integer of a name in a block** is the same in any later arena that still has the scopes of
the block. -/
theorem lastInteger?_of_decodeBlock {t : FieldType} {block : StaticScope} {scope : ScopeId}
    {s s' : DecodeState} (h : t.decodeBlock limit block s = .ok scope s')
    (hsize : s'.scopes.arena.scopes.size ≤ a'.scopes.size)
    (hsame : ∀ i < s'.scopes.arena.scopes.size, a'.scopes[i]? = s'.scopes.arena.scopes[i]?)
    (key : String) : a'.lastInteger? scope key = s'.scopes.arena.lastInteger? scope key := by
  obtain ⟨rfl, hcontents⟩ := of_decodeBlock_ok h
  have hopened := s.scopes.nextScope_lt_openedBlock block
  have hempty := s.scopes.fields_openedBlock block
  have hgrows := (t.decodeContents_grows limit block _).of_ok hcontents
  obtain ⟨members, p, hcount, hconform⟩ := exists_conforms_of_decodeContents hcontents hopened hempty
  have hscope : s.scopes.nextScope < s'.scopes.arena.scopes.size :=
    Nat.lt_of_lt_of_le hopened hgrows.size
  have hfields : a'.fields s.scopes.nextScope = s'.scopes.arena.fields s.scopes.nextScope :=
    fields_congr (hsame _ hscope)
  have hstop : s'.stand.count = s'.scopes.arena.scopes.size := rfl
  have hsearch := (spans_of_fieldsConform members key hconform).eq (fun i _ hlt => hsame i hlt)
    s'.scopes.arena.scopes.size a'.scopes.size (by omega) (by omega)
  change a'.lastAmong key (a'.fields s.scopes.nextScope) a'.scopes.size none = _
  rw [hfields]
  exact congrFun hsearch none

end FieldType

end CommonTrace
