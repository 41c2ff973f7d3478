import CommonTrace.Proofs.Dictionary
import CommonTrace.Proofs.Schema.Steps
import CommonTrace.Proofs.Schema.WellFormed
import CommonTrace.Schema.ScalarType

/-!
# Scalar types are well formed

The table of named types is well formed if all types in it are, with the clocks that are noted in it
(`TypeTable.WellFormed`).  Describing a type without parts leaves the names in the table alone, and it
gives a well-formed type.
-/

namespace CommonTrace

open Tsdl

/-! ## Tables -/

namespace TypeTable

/-- All types that are known are well formed. -/
def WellFormed (table : TypeTable) : Prop :=
  ∀ (i : ℕ) (scope : TypeScope), table.scopes[i]? = some scope →
    ∀ entry ∈ scope.entries.entries, ∀ t, entry.2 = .built t → t.WellFormed table.noted

variable {table table' : TypeTable}

lemma WellFormed.empty (native : ByteOrder) : (TypeTable.empty native).WellFormed := by
  intro i scope hscope entry hentry
  have hfirst : scope = ⟨none, .empty⟩ := by
    rw [TypeTable.empty] at hscope
    obtain ⟨hi, rfl⟩ := Array.getElem?_eq_some_iff.mp hscope
    have hzero : i = 0 := Nat.lt_one_iff.mp hi
    subst hzero
    rfl
  subst hfirst
  cases hentry

lemma WellFormed.of_scopes (h : table.WellFormed) (hscopes : table'.scopes = table.scopes)
    (hgrown : table.noted ⊆ table'.noted) : table'.WellFormed := by
  intro i scope hscope entry hentry t ht
  rw [hscopes] at hscope
  exact (h i scope hscope entry hentry t ht).mono hgrown

lemma WellFormed.lookup? (h : table.WellFormed) {scope : TypeScopeId} {name : String}
    {t : FieldType} (hlookup : table.lookup? scope name = some (.built t)) :
    t.WellFormed table.noted := by
  obtain ⟨s, hs, hentry⟩ := Option.bind_eq_some_iff.mp hlookup
  obtain ⟨key, hmem⟩ := Dictionary.exists_of_get? hentry
  exact h scope s hs _ hmem t rfl

lemma lookup?_of_nearest? {scope home : TypeScopeId} {name : String} {entry : TypeEntry}
    (h : table.nearest? scope name = some (home, entry)) : table.lookup? home name = some entry := by
  obtain ⟨id, -, hid⟩ := List.exists_of_findSome?_eq_some h
  obtain ⟨entry', hentry, heq⟩ := Option.map_eq_some_iff.mp hid
  cases heq
  exact hentry

lemma WellFormed.setEntry (h : table.WellFormed) {scope : TypeScopeId} {name : String}
    {entry : TypeEntry} (hentry : ∀ t, entry = .built t → t.WellFormed table.noted) :
    (table.setEntry scope name entry).WellFormed := by
  intro i s hs e he t ht
  rw [TypeTable.setEntry, Array.getElem?_modify] at hs
  split at hs
  · obtain ⟨old, hold, rfl⟩ := Option.map_eq_some_iff.mp hs
    rcases Dictionary.mem_insert he with rfl | he
    · exact hentry t ht
    · exact h i old hold e he t ht
  · exact h i s hs e he t ht

lemma WellFormed.push (h : table.WellFormed) (parent : Option TypeScopeId) :
    { table with scopes := table.scopes.push ⟨parent, .empty⟩ : TypeTable }.WellFormed := by
  intro i s hs
  rw [Array.getElem?_push] at hs
  split at hs
  · cases hs
    intro entry hentry
    cases hentry
  · exact h i s hs

end TypeTable

namespace TypeM

variable {noted : Set String}

/-- The step keeps tables well formed. -/
abbrev Keeps {α : Type} (step : TypeM α) : Prop :=
  ∀ {noted}, step.Ensures noted TypeTable.WellFormed fun _ _ => True

lemma warnAttribute_keeps (owner key : String) : (warnAttribute owner key).Keeps :=
  .modify fun _ _ h => ⟨subset_rfl, h.of_scopes rfl subset_rfl, trivial⟩

lemma noteClock_ensures (clock : String) :
    (noteClock clock).Ensures noted TypeTable.WellFormed fun later _ => clock ∈ later := by
  refine .modify (P := fun later => clock ∈ later) fun table _ h => ?_
  have hgrown : table.noted ⊆ { table with clocks := table.clocks.push clock : TypeTable }.noted :=
    fun _ hmem => Array.mem_push_of_mem _ hmem
  exact ⟨hgrown, h.of_scopes rfl hgrown, Array.mem_push_self⟩

/-! ## Properties -/

lemma isAlignment_of_powerOfTwo? {n : Int} {m : ℕ} (h : powerOfTwo? n = some m) :
    IsAlignment m := by
  unfold powerOfTwo? at h
  dsimp only at h
  split at h
  · rename_i hpower
    cases h
    exact ⟨_, hpower.2⟩
  · cases h

lemma byteOrderOf_keeps (a : Assignment) : (byteOrderOf a).Keeps := by
  refine .lift_bind fun keyword _ => .get_bind fun table _ _ => ?_
  split
  · exact .pure fun _ _ => trivial
  · exact .throw

lemma encodingOf_keeps (a : Assignment) : (encodingOf a).Keeps := by
  refine .lift_bind fun keyword _ => ?_
  split
  · exact .pure fun _ _ => trivial
  · exact .throw

lemma clockOf_keeps (a : Assignment) : (clockOf a).Keeps := by
  refine .lift_bind fun text _ => ?_
  split
  · exact .pure fun _ _ => trivial
  · exact .throw

lemma alignmentOf_ensures (a : Assignment) :
    (alignmentOf a).Ensures noted TypeTable.WellFormed fun _ => IsAlignment := by
  refine .lift_bind fun value _ => ?_
  split
  · rename_i alignment hpower
    exact .pure fun _ _ => isAlignment_of_powerOfTwo? hpower
  · exact .throw

lemma baseOf_ensures (a : Assignment) :
    (baseOf a).Ensures noted TypeTable.WellFormed fun _ => (· ∈ [2, 8, 10, 16]) := by
  unfold baseOf
  split
  · rename_i n _
    split
    · rename_i hmem
      refine .pure fun _ _ => ?_
      simp only [List.mem_cons, List.not_mem_nil, or_false] at hmem
      rcases hmem with rfl | rfl | rfl | rfl <;> decide
    · exact .throw
  · refine .lift_bind fun keyword _ => ?_
    split <;> first | exact .pure fun _ _ => by decide | exact .throw

/-! ## Integers -/

/-- What has been set of an integer is right; its width is looked at in the end. -/
structure IntegerDraft.Sound (noted : Set String) (draft : IntegerDraft) : Prop where
  alignment : ∀ alignment ∈ draft.alignment, IsAlignment alignment
  base : draft.rest.base ∈ [2, 8, 10, 16]
  timed : draft.rest.IsTimed noted

lemma assignInteger_ensures {draft : IntegerDraft} (h : draft.Sound noted) (a : Assignment) :
    (assignInteger draft a).Ensures noted TypeTable.WellFormed IntegerDraft.Sound := by
  unfold assignInteger
  split
  · exact .lift_bind fun _ _ => .pure fun _ hlater => ⟨h.alignment, h.base, h.timed.mono hlater⟩
  · exact .lift_bind fun _ _ => .pure fun _ hlater => ⟨h.alignment, h.base, h.timed.mono hlater⟩
  · refine .bind (byteOrderOf_keeps a) fun _ _ hlater _ => .pure fun _ hlater' => ?_
    exact ⟨h.alignment, h.base, h.timed.mono (hlater.trans hlater')⟩
  · refine .bind (alignmentOf_ensures a) fun _ alignment hlater halignment => .pure fun _ hlater' => ?_
    refine ⟨?_, h.base, h.timed.mono (hlater.trans hlater')⟩
    rintro _ ⟨⟩
    exact halignment
  · refine .bind (baseOf_ensures a) fun _ base hlater hbase => .pure fun _ hlater' => ?_
    exact ⟨h.alignment, hbase, h.timed.mono (hlater.trans hlater')⟩
  · refine .bind (encodingOf_keeps a) fun _ _ hlater _ => .pure fun _ hlater' => ?_
    exact ⟨h.alignment, h.base, h.timed.mono (hlater.trans hlater')⟩
  · refine .bind (clockOf_keeps a) fun _ clock _ _ => ?_
    refine .bind (noteClock_ensures clock) fun _ _ _ hclock => .pure fun _ hlater => ?_
    refine ⟨h.alignment, h.base, ?_⟩
    rintro _ ⟨⟩
    exact hlater hclock
  · refine .bind (warnAttribute_keeps "integer" _) fun _ _ hlater _ => .pure fun _ hlater' => ?_
    exact ⟨h.alignment, h.base, h.timed.mono (hlater.trans hlater')⟩

theorem integerType_ensures (node : Node) :
    (integerType node).Ensures noted TypeTable.WellFormed fun later t =>
      t.WellFormed ∧ t.IsTimed later := by
  have hstart (native : ByteOrder) (later : Set String) :
      (IntegerDraft.mk none none (.plain 8 false native)).Sound later :=
    ⟨fun _ h => absurd h (Option.not_mem_none _), show 10 ∈ [2, 8, 10, 16] by decide,
      fun _ h => absurd h (Option.not_mem_none _)⟩
  refine .get_bind fun table _ _ => .lift_bind fun assignments _ => ?_
  refine .bind (P := IntegerDraft.Sound) ?_ fun later draft _ hdraft => ?_
  · exact .foldlM (fun later _ => hstart table.native later) fun _ draft _ h a _ =>
      assignInteger_ensures h a
  · split
    · exact .throw
    · rename_i width _
      split
      · exact .throw
      · rename_i hwidth
        rw [not_or, Nat.not_lt] at hwidth
        refine .pure fun _ hlater => ⟨?_, hdraft.timed.mono hlater⟩
        refine ⟨Nat.pos_of_ne_zero hwidth.1, hwidth.2, ?_, hdraft.base⟩
        cases halignment : draft.alignment with
        | none => exact isAlignment_defaultAlignment width
        | some alignment => exact hdraft.alignment alignment halignment

/-! ## Floating point numbers -/

/-- What has been set of a floating point type is right; its digits are looked at in the end. -/
def FloatDraft.Sound (draft : FloatDraft) : Prop :=
  ∀ alignment ∈ draft.alignment, IsAlignment alignment

lemma assignFloat_ensures {draft : FloatDraft} (h : draft.Sound) (a : Assignment) :
    (assignFloat draft a).Ensures noted TypeTable.WellFormed fun _ => FloatDraft.Sound := by
  unfold assignFloat
  split
  · exact .lift_bind fun _ _ => .pure fun _ _ => h
  · exact .lift_bind fun _ _ => .pure fun _ _ => h
  · exact .bind (byteOrderOf_keeps a) fun _ _ _ _ => .pure fun _ _ => h
  · refine .bind (alignmentOf_ensures a) fun _ alignment _ halignment => .pure fun _ _ => ?_
    rintro _ ⟨⟩
    exact halignment
  · exact .bind (warnAttribute_keeps "floating_point" _) fun _ _ _ _ => .pure fun _ _ => h

theorem floatType_ensures (node : Node) :
    (floatType node).Ensures noted TypeTable.WellFormed fun _ => FloatType.WellFormed := by
  have hstart (native : ByteOrder) : (FloatDraft.mk none none native none).Sound :=
    fun _ h => absurd h (Option.not_mem_none _)
  refine .get_bind fun table _ _ => .lift_bind fun assignments _ => ?_
  refine .bind (P := fun _ => FloatDraft.Sound) ?_ fun _ draft _ hdraft => ?_
  · exact .foldlM (fun _ _ => hstart table.native) fun _ draft _ h a _ => assignFloat_ensures h a
  · split
    · rename_i exponent mantissa _ _
      split
      · rename_i hdigits
        refine .pure fun _ _ => ⟨hdigits.1, hdigits.2.1, hdigits.2.2, ?_⟩
        cases halignment : draft.alignment with
        | none => exact isAlignment_defaultAlignment (exponent + mantissa)
        | some alignment => exact hdraft alignment halignment
      · exact .throw
    · exact .throw

/-! ## Strings -/

theorem stringType_keeps (node : Node) : (stringType node).Keeps := by
  refine .lift_bind fun assignments _ => .foldlM (fun _ _ => trivial) fun _ encoding _ _ a _ => ?_
  split
  · exact encodingOf_keeps a
  · exact .bind (warnAttribute_keeps "string" _) fun _ _ _ _ => .pure fun _ _ => trivial

end TypeM

end CommonTrace
