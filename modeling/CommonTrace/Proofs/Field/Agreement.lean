import CommonTrace.Proofs.Field.Lookups
import CommonTrace.Proofs.Field.Stages
import CommonTrace.Proofs.Schema.Steps
import CommonTrace.Proofs.Schema.WellFormed

/-!
# Lookups find what the check has found

When the metadata has passed the check, every plain path that decoding looks up leads to a field, and
to the one that the check has found.  Two facts make this up.  Every lookup that is made while a block is
decoded, also before a failure, is made at a place of which the check has the right view
(`FieldType.placed_of_watchBlock`); and from such a place a plain path leads where the check has found it
to lead (`Lookup.Placed.found`).

So a length that is looked up by a plain path fails to be one only if it is negative or too great, and
a tag only if it selects no alternative (`Lookup.Found`).
-/

namespace CommonTrace

/-! ## Lookups that are found -/

/-- Whether values of a type can be what is looked for. -/
def LookupPurpose.accepts : LookupPurpose → FieldType → Bool
  | .length => View.isLength
  | .tag => View.isTag

namespace Lookup

/-- What is looked up, with what is required of it. -/
def attempt (limit : ℕ) (lookup : Lookup) : DecodeM Unit :=
  match lookup.purpose with
  | .length => do
    let length ← sequenceLength lookup.scope lookup.path lookup.field
    checkLength limit lookup.field length
  | .tag => do
    let _ ← selectedName lookup.scope lookup.path lookup.field

/-- The failures of a lookup that are due to the value that has been found: a length is too great or
negative, and a tag selects no alternative. -/
def Admits (limit : ℕ) (lookup : Lookup) (error : DecodeError) : Prop :=
  match lookup.purpose with
  | .length =>
    (∃ length, limit < length ∧ error = .lengthLimit lookup.field length limit) ∨
      error = .path (.lengthNotNatural lookup.path lookup.field) ∧
        ∃ f n, lookup.state.scopes.resolve? lookup.scope lookup.path = some f ∧
          f.integer? = some n ∧ n.value < 0
  | .tag => ∃ tag, error = .unknownVariantTag tag lookup.field

/-- **A lookup that succeeds as the metadata promises**: it finds a field of the type that the check
of the metadata has found, and it fails only for the value of that field. -/
structure Found (limit : ℕ) (lookup : Lookup) : Prop where
  resolved : ∃ f, lookup.state.scopes.resolve? lookup.scope lookup.path = some f ∧
    lookup.view.resolve? lookup.path = some f.type
  failure : ∀ error s', lookup.attempt limit lookup.state = .error error s' →
    lookup.Admits limit error

/-- **A lookup at its place**: the fields decoded so far are those that the view shows, and the check has
passed the path from there. -/
structure Placed (lookup : Lookup) : Prop where
  inside : ∃ root, lookup.state.scopes.Inside lookup.scope lookup.view root
  accepted : ∃ t, lookup.view.resolve? lookup.path = some t ∧ lookup.purpose.accepts t = true

end Lookup

/-- A field that can be a length is an integer, and no greater than sixty-four bits can be. -/
lemma Arena.Fits.integer? {a : Arena} {f : Field} {t : FieldType} (h : a.Fits f t)
    (ht : View.isLength t = true) : ∃ n, f.integer? = some n ∧ n.value < twoPow 64 := by
  obtain ⟨-, lo, hi, hvalue⟩ := h
  cases t with
  | integer t =>
    obtain ⟨n, hn, hlt⟩ := hvalue
    exact ⟨n, by rw [Field.integer?, hn], hlt⟩
  | enum t =>
    obtain ⟨n, label, hn, hlt⟩ := hvalue
    exact ⟨n, by rw [Field.integer?, hn], hlt⟩
  | _ => cases ht

/-- A field that can be a tag is a text or an enumeration. -/
lemma Arena.Fits.labelled {a : Arena} {f : Field} {t : FieldType} (h : a.Fits f t)
    (ht : View.isTag t = true) :
    (∃ text, f.value = .text text) ∨ ∃ n label, f.value = .enum n label := by
  obtain ⟨-, lo, hi, hvalue⟩ := h
  cases t with
  | enum t =>
    obtain ⟨n, label, hn, -⟩ := hvalue
    exact .inr ⟨n, label, hn⟩
  | string encoding => exact .inl hvalue
  | _ => cases ht

/-! ## Why lookups fail -/

section Failures

variable {s s' : DecodeState} {scope : ScopeId} {path : FieldPath} {field : String} {f : Field}
  {error : DecodeError}

/-- A length that leads to a field fails because the field is no natural number. -/
lemma error_of_sequenceLength (hf : s.scopes.resolve? scope path = some f)
    (h : sequenceLength scope path field s = .error error s') :
    f.unsigned? = none ∧ error = .path (.lengthNotNatural path field) := by
  rw [sequenceLength, DecodeM.get_bind_apply, hf] at h
  dsimp only at h
  cases hnumber : f.unsigned? with
  | none =>
    rw [hnumber] at h
    cases h
    exact ⟨rfl, rfl⟩
  | some length =>
    rw [hnumber] at h
    cases h

lemma error_of_checkLength {limit length : ℕ} (h : checkLength limit field length s = .error error s') :
    limit < length ∧ error = .lengthLimit field length limit := by
  unfold checkLength at h
  split at h
  · rename_i hgreat
    cases h
    exact ⟨hgreat, rfl⟩
  · cases h

/-- A tag that leads to a text or an enumeration fails because a number has no label. -/
lemma error_of_selectedName (hf : s.scopes.resolve? scope path = some f)
    (hvalue : (∃ text, f.value = .text text) ∨ ∃ n label, f.value = .enum n label)
    (h : selectedName scope path field s = .error error s') :
    ∃ tag, error = .unknownVariantTag tag field := by
  rw [selectedName, DecodeM.get_bind_apply, hf] at h
  dsimp only at h
  rcases hvalue with ⟨text, htext⟩ | ⟨n, label, hn⟩
  · rw [htext] at h
    cases h
  · rw [hn] at h
    cases label with
    | none =>
      cases h
      exact ⟨_, rfl⟩
    | some label => cases h

end Failures

lemma negative_of_unsigned?_eq_none {n : IntegerValue} (h : n.unsigned? = none)
    (hlt : n.value < twoPow 64) : n.value < 0 := by
  unfold IntegerValue.unsigned? at h
  split at h
  · cases h
  · rename_i hfits
    rw [FitsUnsigned] at hfits
    omega

namespace Lookup

variable {lookup : Lookup} {a : Arena} {f : Field} {t : FieldType}

/-- A lookup that leads to a field of the type that the check has found fails for the value only. -/
lemma found_of_fits (limit : ℕ)
    (hf : lookup.state.scopes.resolve? lookup.scope lookup.path = some f) (hfits : a.Fits f t)
    (ht : lookup.view.resolve? lookup.path = some t) (haccepts : lookup.purpose.accepts t = true) :
    lookup.Found limit := by
  refine ⟨⟨f, hf, by rw [hfits.1]; exact ht⟩, fun error s' hattempt => ?_⟩
  obtain ⟨view, scope, path, purpose, field, s⟩ := lookup
  cases purpose with
  | length =>
    obtain ⟨n, hn, hlt⟩ := hfits.integer? haccepts
    rcases DecodeM.error_of_bind hattempt with hlength | ⟨length, s₁, -, hlimit⟩
    · obtain ⟨hnone, rfl⟩ := error_of_sequenceLength hf hlength
      rw [Field.unsigned?, hn, Option.bind_some] at hnone
      exact .inr ⟨rfl, f, n, hf, hn, negative_of_unsigned?_eq_none hnone hlt⟩
    · obtain ⟨hgreat, rfl⟩ := error_of_checkLength hlimit
      exact .inl ⟨length, hgreat, rfl⟩
  | tag =>
    rcases DecodeM.error_of_bind hattempt with htag | ⟨_, _, _, hreturn⟩
    · exact error_of_selectedName hf (hfits.labelled haccepts) htag
    · cases hreturn

/-- **Plain lookups are found.** -/
theorem Placed.found (h : lookup.Placed) (limit : ℕ) (hplain : lookup.view.IsPlain lookup.path) :
    lookup.Found limit := by
  obtain ⟨⟨root, hinside⟩, t, ht, haccepts⟩ := h
  obtain ⟨others, hsees⟩ := hinside.sees
  obtain ⟨a, f, hf, hfits⟩ := hsees.resolve? hplain ht
  exact found_of_fits limit hf hfits ht haccepts

end Lookup

/-! ## All lookups of a decoding -/

section Lookups

open Watched

variable {s : DecodeState} {lookup : Lookup}

/-- A lookup that is made by one of several steps is made in a state with all that these steps
keep. -/
lemma lookups_collectFrom {α : Type} {P : DecodeState → Prop} {step : ℕ → Watched α}
    (hstep : ∀ i s a s', P s → (step i).unwatched s = .ok a s' → P s') {index : ℕ}
    {before : List α} {count : ℕ} (hs : P s)
    (hl : lookup ∈ (collectFrom step index before count).lookups s) :
    ∃ i s', P s' ∧ lookup ∈ (step i).lookups s' := by
  induction count generalizing s index before with
  | zero => exact absurd hl List.not_mem_nil
  | succ count ih =>
    rw [collectFrom, mem_lookups_bind] at hl
    rcases hl with hl | ⟨a, s', hok, hl⟩
    · exact ⟨index, s, hs, hl⟩
    · have hs' := hstep index s a s' hs hok
      exact ih hs' hl

lemma FieldType.lookups_watchNamed {t : FieldType} {name : String} {value : Watched Value}
    (hl : lookup ∈ (t.watchNamed name value).lookups s) :
    ∃ s', DecodeM.align t.alignment s = .ok () s' ∧ lookup ∈ value.lookups s' := by
  rw [watchNamed, mem_lookups_quiet_bind] at hl
  obtain ⟨_, s', halign, hl⟩ := hl
  rw [mem_lookups_bind] at hl
  rcases hl with hl | ⟨_, _, _, hl⟩
  · exact ⟨s', halign, hl⟩
  · exact absurd hl List.not_mem_nil

variable {view : View} {scope root : ScopeId}

/-- A named value leaves the place where it is. -/
lemma ScopeChain.Inside.named {t : FieldType} {limit : ℕ} {name : String} {f : Field}
    {s' : DecodeState} (h : s.scopes.Inside scope view root)
    (hok : (t.watchNamed name (FieldType.watchValue limit view t scope name)).unwatched s =
      .ok f s') : s'.scopes.Inside scope view root := by
  rw [FieldType.unwatched_watchNamed, FieldType.unwatched_watchValue] at hok
  have hgrows := t.named_grows name (t.decodeValue_grows limit scope name)
  exact h.grow (hgrows.of_ok hok)

/-- The elements of an array or a sequence stand where the whole stands. -/
lemma ScopeChain.Inside.elements {element : FieldType} {limit count : ℕ}
    (h : s.scopes.Inside scope view root)
    (hl : lookup ∈ (collectElements count fun index =>
      element.watchNamed index (FieldType.watchValue limit view element scope index)).lookups s) :
    ∃ index s', s'.scopes.Inside scope view root ∧
      lookup ∈ (FieldType.watchValue limit view element scope index).lookups s' := by
  obtain ⟨i, s₁, hinside, hl⟩ := lookups_collectFrom
    (P := fun s => s.scopes.Inside scope view root) (fun _ _ _ _ h hok => h.named hok) h hl
  obtain ⟨s₂, halign, hl⟩ := FieldType.lookups_watchNamed hl
  rw [← scopes_of_align halign] at hinside
  exact ⟨_, s₂, hinside, hl⟩

lemma View.exists_of_expect {path : FieldPath} {accepts : FieldType → Bool}
    (h : view.expect path accepts = .ok ()) :
    ∃ t, view.resolve? path = some t ∧ accepts t = true := by
  unfold View.expect at h
  split at h
  · rename_i hany
    exact (Option.any_eq_true _ _).mp hany
  · cases h

namespace FieldType

mutual

/-- **All lookups of a value are made at their places**, if the value stands at a place of which the
check has the right view, and the check has passed its type. -/
theorem placed_of_watchValue (limit : ℕ) (view : View) (t : FieldType) (scope : ScopeId)
    (name : String) {root : ScopeId} {s : DecodeState} {lookup : Lookup}
    (hinside : s.scopes.Inside scope view root) (hcheck : view.check t = .ok ())
    (hdistinct : t.Distinct) (hl : lookup ∈ (watchValue limit view t scope name).lookups s) :
    lookup.Placed := by
  match t with
  | .integer _ | .float _ | .string _ | .enum _ => exact absurd hl List.not_mem_nil
  | .array element length =>
    rw [View.check] at hcheck
    obtain ⟨_, -, hcheck⟩ := exists_of_bind_eq_ok hcheck
    rw [watchValue, mem_lookups_quiet_bind] at hl
    obtain ⟨_, s', hlimit, hl⟩ := hl
    have hinside' := hinside.grow ((checkLength_leads limit name length).of_ok hlimit)
    split at hl
    · exact absurd hl List.not_mem_nil
    · rw [mem_lookups_map] at hl
      obtain ⟨index, s₁, hinside₁, hl⟩ := hinside'.elements hl
      exact placed_of_watchValue limit view element scope index hinside₁ hcheck hdistinct hl
  | .sequence element path =>
    rw [View.check] at hcheck
    obtain ⟨_, hpath, hcheck⟩ := exists_of_bind_eq_ok hcheck
    obtain ⟨_, -, hcheck⟩ := exists_of_bind_eq_ok hcheck
    rw [watchValue, mem_lookups_bind] at hl
    rcases hl with hl | ⟨length, s', hok, hl⟩
    · rw [watchLength, lookups_note_bind, lookups_quiet, List.mem_singleton] at hl
      subst hl
      exact ⟨⟨root, hinside⟩, View.exists_of_expect hpath⟩
    · have hinside' := hinside.grow ((sequenceLength_leads scope path name).of_ok hok)
      rw [mem_lookups_quiet_bind] at hl
      obtain ⟨_, s'', hlimit, hl⟩ := hl
      have hinside'' := hinside'.grow ((checkLength_leads limit name length).of_ok hlimit)
      split at hl
      · exact absurd hl List.not_mem_nil
      · rw [mem_lookups_map] at hl
        obtain ⟨index, s₁, hinside₁, hl⟩ := hinside''.elements hl
        exact placed_of_watchValue limit view element scope index hinside₁ hcheck hdistinct hl
  | .struct _ fields =>
    rw [View.check] at hcheck
    rw [watchValue, mem_lookups_quiet_bind] at hl
    obtain ⟨inner, s', hopen, hl⟩ := hl
    rw [mem_lookups_bind] at hl
    rcases hl with hl | ⟨_, _, _, hl⟩
    · have hinside' := hinside.openChild hopen
      exact placed_of_watchFields limit view [] fields inner hinside' hcheck hdistinct.1 (by simp)
        hdistinct.2 hl
    · exact absurd hl List.not_mem_nil
  | .variant none _ => exact absurd hl List.not_mem_nil
  | .variant (some tag) alternatives =>
    rw [View.check] at hcheck
    obtain ⟨_, htag, hcheck⟩ := exists_of_bind_eq_ok hcheck
    rw [watchValue, mem_lookups_bind] at hl
    rcases hl with hl | ⟨selection, s', hok, hl⟩
    · rw [watchSelection, lookups_note_bind, lookups_quiet, List.mem_singleton] at hl
      subst hl
      exact ⟨⟨root, hinside⟩, View.exists_of_expect htag⟩
    · have hinside' := hinside.grow ((selectedName_leads scope tag name).of_ok hok)
      rw [mem_lookups_map] at hl
      exact placed_of_watchAlternative limit view alternatives selection scope name hinside' hcheck
        hdistinct hl
termination_by structural t

theorem placed_of_watchFields (limit : ℕ) (view : View) (before fields : List (String × FieldType))
    (scope : ScopeId) {root : ScopeId} {s : DecodeState} {lookup : Lookup}
    (hinside : s.scopes.Inside scope (view.enter before) root)
    (hcheck : view.checkFields before fields = .ok ()) (hnames : (fields.map Prod.fst).Nodup)
    (hnew : ∀ member ∈ fields, member.1 ∉ before.map Prod.fst)
    (hdistinct : DistinctMembers fields)
    (hl : lookup ∈ (watchFields limit view before fields scope).lookups s) : lookup.Placed := by
  match fields with
  | [] => exact absurd hl List.not_mem_nil
  | (name, t) :: rest =>
    rw [View.checkFields] at hcheck
    obtain ⟨_, hhere, hthere⟩ := exists_of_bind_eq_ok hcheck
    rw [watchFields, mem_lookups_bind] at hl
    rcases hl with hl | ⟨f, s₁, hfield, hl⟩
    · obtain ⟨s₀, halign, hl⟩ := lookups_watchNamed hl
      rw [← scopes_of_align halign] at hinside
      exact placed_of_watchValue limit (view.enter before) t scope name hinside hhere hdistinct.1 hl
    · rw [mem_lookups_quiet_bind] at hl
      obtain ⟨_, s₂, hbind, hl⟩ := hl
      obtain ⟨hfirst, hrest⟩ := List.nodup_cons.mp hnames
      obtain ⟨hname, hothers⟩ := List.forall_mem_cons.mp hnew
      have hinside₁ := hinside.named hfield
      rw [unwatched_watchNamed, unwatched_watchValue] at hfield
      obtain ⟨s₀, halign, hvalue, hfname, hftype⟩ := of_named_ok hfield
      have hholds := holds_of_decodeValue limit t scope name hvalue
      rw [scopes_of_align halign] at hholds
      have hbehind := hholds.of_agree (Nat.succ_le_of_lt hinside.opens.lt) (Nat.le_refl _)
        fun _ _ _ => rfl
      have hinside₂ := hinside₁.bindField hname hfname hftype hbehind hbind
      refine placed_of_watchFields limit view ((name, t) :: before) rest scope hinside₂ hthere hrest
        (fun member hmember => ?_) hdistinct.2 hl
      rw [List.map_cons, List.mem_cons, not_or]
      refine ⟨?_, hothers member hmember⟩
      rintro rfl
      exact hfirst (List.mem_map.mpr ⟨member, hmember, rfl⟩)
termination_by structural fields

theorem placed_of_watchAlternative (limit : ℕ) (view : View)
    (alternatives : List (String × FieldType)) (selection : String) (scope : ScopeId)
    (name : String) {root : ScopeId} {s : DecodeState} {lookup : Lookup}
    (hinside : s.scopes.Inside scope view root)
    (hcheck : view.checkAlternatives alternatives = .ok ())
    (hdistinct : DistinctMembers alternatives)
    (hl : lookup ∈ (watchAlternative limit view alternatives selection scope name).lookups s) :
    lookup.Placed := by
  match alternatives with
  | [] => exact absurd hl List.not_mem_nil
  | (alternative, t) :: rest =>
    rw [View.checkAlternatives] at hcheck
    obtain ⟨_, hhere, hthere⟩ := exists_of_bind_eq_ok hcheck
    rw [watchAlternative] at hl
    split at hl
    · obtain ⟨s₀, halign, hl⟩ := lookups_watchNamed hl
      rw [← scopes_of_align halign] at hinside
      exact placed_of_watchValue limit view t scope selection hinside hhere hdistinct.1 hl
    · exact placed_of_watchAlternative limit view rest selection scope name hinside hthere hdistinct.2
        hl
termination_by structural alternatives

end

/-- **All lookups of a block are made at their places**, if the check has passed the block behind the
blocks decoded before. -/
theorem placed_of_watchBlock {limit : ℕ} {earlier : List (StaticScope × FieldType)} {least : ℕ}
    {members : List (String × FieldType)} {block : StaticScope} {s : DecodeState} {lookup : Lookup}
    (hbetween : s.scopes.Between earlier) (hnew : block ∉ earlier.map Prod.fst)
    (hcheck : View.check { place := { stream := 0, event := none, block }, earlier, frames := [] }
      (.struct least members) = .ok ())
    (hdistinct : (FieldType.struct least members).Distinct)
    (hl : lookup ∈ (watchBlock limit earlier (.struct least members) block).lookups s) :
    lookup.Placed := by
  rw [watchBlock, mem_lookups_quiet_bind] at hl
  obtain ⟨scope, s₁, hopen, hl⟩ := hl
  rw [mem_lookups_bind] at hl
  rcases hl with hl | ⟨_, _, _, hl⟩
  · rw [watchContents, mem_lookups_quiet_bind] at hl
    obtain ⟨_, s₂, halign, hl⟩ := hl
    let place : BlockPlace := { stream := 0, event := none, block }
    have hinside := hbetween.inside (show place.block ∉ _ from hnew) hopen
    rw [← scopes_of_align halign] at hinside
    rw [View.check] at hcheck
    exact placed_of_watchFields limit _ [] members scope hinside hcheck hdistinct.1 (by simp)
      hdistinct.2 hl
  · exact absurd hl List.not_mem_nil

end FieldType

end Lookups

end CommonTrace
