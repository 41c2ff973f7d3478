import CommonTrace.Event.Json
import CommonTrace.Proofs.Field.Agreement
import CommonTrace.Proofs.Field.Conformance
import CommonTrace.Proofs.Field.Forest
import Mathlib.Data.List.Nodup

/-!
# Searches in an arena come to an end

A path is searched for from a scope outwards, the last integer of a name from a scope inwards, and the JSON
form of an event goes inwards too.  Each of these goes on from a scope to others, without an eye on where it
has been before.  What ends it is the order of the scopes: outwards they come earlier, inwards they come
later, and there are finitely many.

The definitions bound the number of scopes on the way instead.  `Arena.Searchable` says that this makes no
difference: the way from scope to scope is well-founded, and each search is given by its own results for
the next scopes, with no bound.

Arenas are searched into which blocks have been decoded, one after the other and with or without success
(`ScopeChain.Reached`).  They are forests, and so they are searchable
(`ScopeChain.decoding_grows_forest`).
-/

namespace CommonTrace

/-! ## Searches with a bound -/

/-- **A search from scope to scope**, with a bound on the number of scopes on the way.  What one scope
contributes is a `step`, and it depends on the results for the scopes that are `next`. -/
structure ScopeSearch {β : Type} (search : ℕ → ScopeId → β) (step : (ScopeId → β) → ScopeId → β)
    (next : ScopeId → ScopeId → Prop) : Prop where
  succ : ∀ bound scope, search (bound + 1) scope = step (search bound) scope
  congr : ∀ {g g' : ScopeId → β} {scope}, (∀ i, next scope i → g i = g' i) → step g scope = step g' scope

namespace ScopeSearch

variable {β : Type} {search : ℕ → ScopeId → β} {step : (ScopeId → β) → ScopeId → β}
  {next : ScopeId → ScopeId → Prop} {weight : ScopeId → ℕ}

/-- If a weight gets smaller on the way, all bounds above it give the same. -/
lemma eq_of_weight_lt (h : ScopeSearch search step next)
    (hweight : ∀ {scope i}, next scope i → weight i < weight scope) {bound bound' : ℕ} {scope : ScopeId}
    (hbound : weight scope < bound) (hbound' : weight scope < bound') :
    search bound scope = search bound' scope := by
  induction bound generalizing bound' scope with
  | zero => exact absurd hbound (Nat.not_lt_zero _)
  | succ bound ih =>
    obtain ⟨bound', rfl⟩ := Nat.exists_eq_add_one_of_ne_zero (Nat.ne_zero_of_lt hbound')
    rw [h.succ, h.succ]
    refine h.congr fun i hi => ih ?_ ?_
    · exact Nat.lt_of_lt_of_le (hweight hi) (Nat.le_of_lt_succ hbound)
    · exact Nat.lt_of_lt_of_le (hweight hi) (Nat.le_of_lt_succ hbound')

/-- Under a bound above the weight, the search is one step behind itself: the bound plays no part. -/
lemma eq_step (h : ScopeSearch search step next)
    (hweight : ∀ {scope i}, next scope i → weight i < weight scope) {bound : ℕ} {scope : ScopeId}
    (hbound : weight scope < bound) : search bound scope = step (search bound) scope := by
  obtain ⟨bound, rfl⟩ := Nat.exists_eq_add_one_of_ne_zero (Nat.ne_zero_of_lt hbound)
  rw [h.succ]
  refine h.congr fun i hi => h.eq_of_weight_lt hweight ?_ (Nat.lt_trans (hweight hi) hbound)
  exact Nat.lt_of_lt_of_le (hweight hi) (Nat.le_of_lt_succ hbound)

end ScopeSearch

/-! ## What one scope contributes -/

mutual

/-- The JSON form of a value depends only on the structures in the value. -/
lemma Value.toJson_congr {g g' : ScopeId → Json} (value : Value)
    (h : ∀ i ∈ value.pointers, g i = g' i) : value.toJson g = value.toJson g' := by
  match value with
  | .integer _ | .float _ | .text _ | .enum _ _ => rfl
  | .struct scope => exact h scope (List.mem_singleton_self scope)
  | .variant selection inner => rw [Value.toJson, Value.toJson, fieldToJson_congr inner h]
  | .array elements => rw [Value.toJson, Value.toJson, elementsToJson_congr elements h]
  | .sequence elements => rw [Value.toJson, Value.toJson, elementsToJson_congr elements h]
termination_by structural value

lemma Value.fieldToJson_congr {g g' : ScopeId → Json} (field : Field)
    (h : ∀ i ∈ field.pointers, g i = g' i) : Value.fieldToJson g field = Value.fieldToJson g' field := by
  match field with
  | ⟨_, _, value⟩ => exact Value.toJson_congr value h
termination_by structural field

lemma Value.elementsToJson_congr {g g' : ScopeId → Json} (elements : List Field)
    (h : ∀ i ∈ Field.pointersOf elements, g i = g' i) :
    Value.elementsToJson g elements = Value.elementsToJson g' elements := by
  match elements with
  | [] => rfl
  | field :: rest =>
    rw [Value.elementsToJson, Value.elementsToJson,
      Value.fieldToJson_congr field fun i hi => h i (List.mem_append_left _ hi),
      Value.elementsToJson_congr rest fun i hi => h i (List.mem_append_right _ hi)]
termination_by structural elements

end

namespace Arena

variable {a : Arena} {scope inner : ScopeId}

/-- The last integer of a name in a field depends only on the structures in the field. -/
lemma lastIntegerIn?_congr {name : String} {g g' : ScopeId → Option Field} (f : Field)
    (h : ∀ i ∈ f.pointers, g i = g' i) : lastIntegerIn? name g f = lastIntegerIn? name g' f := by
  match f with
  | ⟨_, _, .struct scope⟩ => exact h scope (List.mem_singleton_self scope)
  | ⟨_, _, .variant _ inner⟩ => exact lastIntegerIn?_congr inner h
  | ⟨_, _, .integer _⟩ | ⟨_, _, .enum _ _⟩ => rfl
  | ⟨_, _, .float _⟩ | ⟨_, _, .text _⟩ | ⟨_, _, .array _⟩ | ⟨_, _, .sequence _⟩ => rfl
termination_by structural f

/-- A field of the scope `scope` holds the structure with the scope `inner`. -/
def PointsTo (a : Arena) (scope inner : ScopeId) : Prop :=
  ∃ f ∈ a.fields scope, inner ∈ f.pointers

/-- Going outwards, a scope stands before those around it. -/
def enclosingStep (a : Arena) (around : ScopeId → List ScopeId) (scope : ScopeId) : List ScopeId :=
  scope :: ((a.parent? scope).map around).getD []

/-- Of the last integers in the fields of a scope, the last one counts. -/
def lastIntegerStep (a : Arena) (name : String) (inScope : ScopeId → Option Field) (scope : ScopeId) :
    Option Field :=
  (a.fields scope).foldl (fun found f => (lastIntegerIn? name inScope f).or found) none

/-- The JSON form of a scope has a member for each field. -/
def jsonStep (a : Arena) (inScope : ScopeId → Json) (scope : ScopeId) : Json :=
  .ofMembers ((a.fields scope).map fun f => (f.name, f.value.toJson inScope))

lemma scopeSearch_outwards (a : Arena) :
    ScopeSearch a.outwards a.enclosingStep fun scope parent => a.parent? scope = some parent where
  succ bound scope := by
    rw [outwards, enclosingStep]
    cases a.parent? scope <;> rfl
  congr {g g' scope} h := by
    unfold enclosingStep
    cases hparent : a.parent? scope with
    | none => rfl
    | some parent => rw [Option.map_some, Option.map_some, h parent hparent]

lemma scopeSearch_lastInteger (a : Arena) (name : String) :
    ScopeSearch (a.lastIntegerWithin? name) (a.lastIntegerStep name) a.PointsTo where
  succ _ _ := rfl
  congr {g g' scope} h := by
    refine List.foldl_ext _ _ _ fun found f hf => ?_
    rw [lastIntegerIn?_congr f fun i hi => h i ⟨f, hf, hi⟩]

lemma scopeSearch_json (a : Arena) : ScopeSearch a.scopeToJsonWithin a.jsonStep a.PointsTo where
  succ _ _ := rfl
  congr {g g' scope} h := by
    refine congrArg Json.ofMembers (List.map_congr_left fun f hf => ?_)
    have hvalue : ∀ i ∈ f.value.pointers, g i = g' i :=
      fun i hi => h i ⟨f, hf, f.pointers_eq ▸ hi⟩
    rw [Value.toJson_congr f.value hvalue]

/-! ## Arenas in which searches come to an end -/

/-- **Every search ends by itself.**  There is no endless way outwards or inwards, and each search is given
by what one scope contributes to its own results for the next ones. -/
structure Searchable (a : Arena) : Prop where
  outwards : WellFounded fun parent scope => a.parent? scope = some parent
  inwards : WellFounded fun inner scope => a.PointsTo scope inner
  enclosing : ∀ scope < a.scopes.size, a.enclosing scope = a.enclosingStep a.enclosing scope
  lastInteger? : ∀ name scope,
    a.lastInteger? scope name = a.lastIntegerStep name (a.lastInteger? · name) scope
  scopeToJson : ∀ scope, a.scopeToJson scope = a.jsonStep a.scopeToJson scope

/-- The structures in all fields of the arena. -/
def pointers (a : Arena) : List ScopeId :=
  (List.range a.scopes.size).flatMap fun scope => Field.pointersOf (a.fields scope)

namespace Forest

lemma of_pointsTo (h : a.Forest) (hinner : a.PointsTo scope inner) :
    scope < inner ∧ a.parent? inner = some scope := by
  obtain ⟨f, hf, hmem⟩ := hinner
  have hbranch := Field.mem_pointersOf.mpr ⟨f, hf, hmem⟩
  exact ⟨(h.branches scope).le inner hbranch, (h.branches scope).parent inner hbranch⟩

/-- Inwards, fewer and fewer scopes are left. -/
lemma left_lt (h : a.Forest) (hinner : a.PointsTo scope inner) :
    a.scopes.size - inner < a.scopes.size - scope := by
  obtain ⟨hlt, hparent⟩ := h.of_pointsTo hinner
  exact Nat.sub_lt_sub_left (Nat.lt_trans hlt (lt_size_of_parent? hparent)) hlt

/-- No structure is held by two fields, in the same scope or in different ones. -/
lemma pointers_nodup (h : a.Forest) : a.pointers.Nodup := by
  refine List.nodup_flatMap.mpr ⟨fun scope _ => (h.branches scope).nodup, ?_⟩
  refine List.nodup_range.imp fun {scope other} hne i hi hi' => hne ?_
  have hparent := (h.branches scope).parent i hi
  have hparent' := (h.branches other).parent i hi'
  exact Option.some.inj (hparent.symm.trans hparent')

/-- **Searches in a forest come to an end.** -/
theorem searchable (h : a.Forest) : a.Searchable where
  outwards := Subrelation.wf h.parent_lt Nat.lt_wfRel.wf
  inwards := Subrelation.wf h.left_lt (measure (a.scopes.size - ·)).wf
  enclosing _ hscope := a.scopeSearch_outwards.eq_step h.parent_lt hscope
  lastInteger? name scope :=
    (a.scopeSearch_lastInteger name).eq_step h.left_lt (Nat.lt_succ_of_le (Nat.sub_le _ scope))
  scopeToJson scope :=
    a.scopeSearch_json.eq_step h.left_lt (Nat.lt_succ_of_le (Nat.sub_le _ scope))

end Forest

end Arena

/-! ## Searches on the way

While a block is decoded, paths are searched for from scopes whose structures are not complete yet. -/

namespace DecodeState

/-- The scopes decoded so far are a forest, and `scope` is one of them. -/
def Grown (s : DecodeState) (scope : ScopeId) : Prop :=
  s.scopes.arena.Forest ∧ scope < s.scopes.arena.scopes.size

variable {s s' : DecodeState} {scope : ScopeId}

lemma Grown.of_sameScopes (h : s.Grown scope) (hsame : s.SameScopes s') : s'.Grown scope := by
  unfold Grown
  rwa [show s'.scopes = s.scopes from hsame]

/-- Behind a step that keeps a forest, the scope is still there. -/
lemma Grown.step {α : Type} {pointers : α → List ScopeId} {into : Option ScopeId} {m : DecodeM α} {a : α}
    (h : s.Grown scope) (hplants : m.Plants scope pointers) (hgrows : m.Grows into)
    (hok : m s = .ok a s') : s'.Grown scope :=
  ⟨((hplants s h.1 h.2).ok hok).1, Nat.lt_of_lt_of_le h.2 (hgrows.of_ok hok).size⟩

lemma Grown.openChild {inner : ScopeId} {name : String} (h : s.Grown scope)
    (hopen : DecodeM.openChild scope name s = .ok inner s') : s'.Grown inner := by
  cases hopen
  refine ⟨h.1.openChild h.2 name, ?_⟩
  simp

end DecodeState

/-- The lookup is made from a scope of a forest. -/
def Lookup.InForest (lookup : Lookup) : Prop :=
  lookup.state.Grown lookup.scope

namespace FieldType

open DecodeM Watched

variable {s : DecodeState} {lookup : Lookup} {scope : ScopeId} {view : View}

/-- Behind a named value, the scope is still there. -/
lemma grown_of_watchNamed {t : FieldType} {limit : ℕ} {name : String} {f : Field} {s' : DecodeState}
    (h : s.Grown scope) (hok : (t.watchNamed name (watchValue limit view t scope name)).unwatched s =
      .ok f s') : s'.Grown scope := by
  rw [unwatched_watchNamed, unwatched_watchValue] at hok
  exact h.step (t.named_plants name (t.decodeValue_plants limit scope name))
    (t.named_grows name (t.decodeValue_grows limit scope name)) hok

/-- The lookups for elements are those for the values of the elements. -/
lemma exists_grown_of_elements {element : FieldType} {limit count : ℕ} (h : s.Grown scope)
    (hl : lookup ∈ (collectElements count fun index =>
      element.watchNamed index (watchValue limit view element scope index)).lookups s) :
    ∃ index s', s'.Grown scope ∧ lookup ∈ (watchValue limit view element scope index).lookups s' := by
  obtain ⟨i, s₁, hgrown, hl⟩ := lookups_collectFrom
    (P := fun s => s.Grown scope) (fun _ _ _ _ h hok => grown_of_watchNamed h hok) h hl
  obtain ⟨s₂, halign, hl⟩ := lookups_watchNamed hl
  exact ⟨_, s₂, hgrown.of_sameScopes (scopes_of_align halign), hl⟩

mutual

/-- **All lookups of a value are made in a forest**, if the value is decoded in one. -/
theorem inForest_of_watchValue (limit : ℕ) (view : View) (t : FieldType) (scope : ScopeId)
    (name : String) {s : DecodeState} {lookup : Lookup} (h : s.Grown scope)
    (hl : lookup ∈ (watchValue limit view t scope name).lookups s) : lookup.InForest := by
  match t with
  | .integer _ | .float _ | .string _ | .enum _ => exact absurd hl List.not_mem_nil
  | .array element length =>
    rw [watchValue, mem_lookups_quiet_bind] at hl
    obtain ⟨_, s', hlimit, hl⟩ := hl
    have h' := h.of_sameScopes ((checkLength_leads limit name length).of_ok hlimit)
    split at hl
    · exact absurd hl List.not_mem_nil
    · rw [mem_lookups_map] at hl
      obtain ⟨index, s₁, h₁, hl⟩ := exists_grown_of_elements h' hl
      exact inForest_of_watchValue limit view element scope index h₁ hl
  | .sequence element path =>
    rw [watchValue, mem_lookups_bind] at hl
    obtain hl | ⟨length, s', hok, hl⟩ := hl
    · rw [watchLength, lookups_note_bind, lookups_quiet, List.mem_singleton] at hl
      subst hl
      exact h
    · have h' := h.of_sameScopes ((sequenceLength_leads scope path name).of_ok hok)
      rw [mem_lookups_quiet_bind] at hl
      obtain ⟨_, s'', hlimit, hl⟩ := hl
      have h'' := h'.of_sameScopes ((checkLength_leads limit name length).of_ok hlimit)
      split at hl
      · exact absurd hl List.not_mem_nil
      · rw [mem_lookups_map] at hl
        obtain ⟨index, s₁, h₁, hl⟩ := exists_grown_of_elements h'' hl
        exact inForest_of_watchValue limit view element scope index h₁ hl
  | .struct _ fields =>
    rw [watchValue, mem_lookups_quiet_bind] at hl
    obtain ⟨inner, s', hopen, hl⟩ := hl
    rw [mem_lookups_bind] at hl
    obtain hl | ⟨_, _, _, hl⟩ := hl
    · exact inForest_of_watchFields limit view [] fields inner (h.openChild hopen) hl
    · exact absurd hl List.not_mem_nil
  | .variant none _ => exact absurd hl List.not_mem_nil
  | .variant (some tag) alternatives =>
    rw [watchValue, mem_lookups_bind] at hl
    obtain hl | ⟨selection, s', hok, hl⟩ := hl
    · rw [watchSelection, lookups_note_bind, lookups_quiet, List.mem_singleton] at hl
      subst hl
      exact h
    · have h' := h.of_sameScopes ((selectedName_leads scope tag name).of_ok hok)
      rw [mem_lookups_map] at hl
      exact inForest_of_watchAlternative limit view alternatives selection scope name h' hl
termination_by structural t

theorem inForest_of_watchFields (limit : ℕ) (view : View) (before fields : List (String × FieldType))
    (scope : ScopeId) {s : DecodeState} {lookup : Lookup} (h : s.Grown scope)
    (hl : lookup ∈ (watchFields limit view before fields scope).lookups s) : lookup.InForest := by
  match fields with
  | [] => exact absurd hl List.not_mem_nil
  | (name, t) :: rest =>
    have hplants := named_plants t name (decodeValue_plants limit t scope name)
    have hgrows := named_grows t name (decodeValue_grows limit t scope name)
    rw [watchFields, mem_lookups_bind] at hl
    obtain hl | ⟨f, s₁, hfield, hl⟩ := hl
    · obtain ⟨s₀, halign, hl⟩ := lookups_watchNamed hl
      have h₀ := h.of_sameScopes (scopes_of_align halign)
      exact inForest_of_watchValue limit (view.enter before) t scope name h₀ hl
    · rw [mem_lookups_quiet_bind] at hl
      obtain ⟨_, s₂, hbind, hl⟩ := hl
      rw [unwatched_watchNamed, unwatched_watchValue] at hfield
      -- the field and its binding are one step of those that keep a forest
      have hboth := (bind_of_ok hfield (bindField scope)).trans hbind
      have h₂ := h.step (hplants.bindField hgrows)
        ((hgrows.weaken _).bind fun field => grows_bindField scope field) hboth
      exact inForest_of_watchFields limit view ((name, t) :: before) rest scope h₂ hl
termination_by structural fields

theorem inForest_of_watchAlternative (limit : ℕ) (view : View)
    (alternatives : List (String × FieldType)) (selection : String) (scope : ScopeId)
    (name : String) {s : DecodeState} {lookup : Lookup} (h : s.Grown scope)
    (hl : lookup ∈ (watchAlternative limit view alternatives selection scope name).lookups s) :
    lookup.InForest := by
  match alternatives with
  | [] => exact absurd hl List.not_mem_nil
  | (alternative, t) :: rest =>
    rw [watchAlternative] at hl
    split at hl
    · obtain ⟨s₀, halign, hl⟩ := lookups_watchNamed hl
      have h₀ := h.of_sameScopes (scopes_of_align halign)
      exact inForest_of_watchValue limit view t scope selection h₀ hl
    · exact inForest_of_watchAlternative limit view rest selection scope name h hl
termination_by structural alternatives

end

/-- The lookups for what a block holds are made in a forest. -/
lemma inForest_of_watchContents (limit : ℕ) (view : View) (t : FieldType) (block : StaticScope)
    {scope : ScopeId} (h : s.Grown scope)
    (hl : lookup ∈ (watchContents limit view t block scope).lookups s) : lookup.InForest := by
  have hother (hl : lookup ∈ (t.watchNamed block.name (watchValue limit view t scope block.name) >>=
      fun field => quiet (bindField scope field)).lookups s) : lookup.InForest := by
    rw [mem_lookups_bind] at hl
    obtain hl | ⟨_, _, _, hl⟩ := hl
    · obtain ⟨s₀, halign, hl⟩ := lookups_watchNamed hl
      exact inForest_of_watchValue limit view t scope block.name
        (h.of_sameScopes (scopes_of_align halign)) hl
    · exact absurd hl List.not_mem_nil
  cases t with
  | struct least fields =>
    rw [watchContents, mem_lookups_quiet_bind] at hl
    obtain ⟨_, s₀, halign, hl⟩ := hl
    exact inForest_of_watchFields limit view [] fields scope (h.of_sameScopes (scopes_of_align halign)) hl
  | _ => exact hother hl

/-- **All lookups of a block are made in a forest**, if the blocks before it have left one. -/
theorem inForest_of_watchBlock (limit : ℕ) (earlier : List (StaticScope × FieldType)) (t : FieldType)
    (block : StaticScope) (h : s.scopes.arena.Forest)
    (hl : lookup ∈ (t.watchBlock limit earlier block).lookups s) : lookup.InForest := by
  rw [watchBlock, mem_lookups_quiet_bind] at hl
  obtain ⟨scope, s₁, hopen, hl⟩ := hl
  cases hopen
  rw [mem_lookups_bind] at hl
  obtain hl | ⟨_, _, _, hl⟩ := hl
  · refine inForest_of_watchContents limit _ t block ⟨h.openBlock block, ?_⟩ hl
    simp
  · exact absurd hl List.not_mem_nil

end FieldType

/-! ## Decoding one block after the other -/

/-- What has grown without changing a scope is what it was, with scopes opened behind. -/
lemma DecodeState.Grows.exists_opened {s s' : DecodeState} (h : s.Grows none s') :
    ∃ opened : Array Scope, s'.scopes =
      { arena := { scopes := s.scopes.arena.scopes ++ opened, blocks := s.scopes.arena.blocks }
        outer := s.scopes.outer } := by
  have hscopes : s'.scopes.arena.scopes = s.scopes.arena.scopes ++
      s'.scopes.arena.scopes.extract s.scopes.arena.scopes.size := by
    refine Array.ext_getElem? fun i => ?_
    by_cases hi : i < s.scopes.arena.scopes.size
    · rw [Array.getElem?_append_left hi, h.scope i hi (by simp)]
    · have hle := Nat.le_of_not_lt hi
      rw [Array.getElem?_append_right hle, Array.getElem?_extract, Nat.add_sub_cancel' hle]
      split
      · rfl
      · rename_i hge
        exact Array.getElem?_eq_none (by omega)
  refine ⟨s'.scopes.arena.scopes.extract s.scopes.arena.scopes.size, ?_⟩
  rw [← hscopes, ← h.blocks, ← h.outer]

namespace ScopeChain

/-- The chains that come from an empty arena, with any arenas around it, by decoding blocks: of any types,
from any cursors, and whether this succeeds or fails. -/
inductive Reached : ScopeChain → Prop
  | empty (outer : List Arena) : Reached { arena := .empty, outer }
  | decodeBlock {s : DecodeState} (h : Reached s.scopes) (limit : ℕ) (t : FieldType)
      (block : StaticScope) : Reached ((t.decodeBlock limit block).final s).scopes

lemma Reached.forest {chain : ScopeChain} (h : chain.Reached) : chain.arena.Forest := by
  induction h with
  | empty outer => exact .empty
  | decodeBlock _ limit t block ih => exact FieldType.forest_of_decodeBlock limit t block ih

/-- **Decoding lets a forest grow.**  A value that is decoded, with success or without, changes nothing of
the scopes, the blocks and the arenas around, but opens scopes behind the others.  Whatever blocks have been
decoded, in the arena a scope lies in one that was opened before it, the structures of a field lie in the
scope of the field and were opened after it, no structure is held by two fields, and every search ends by
itself, also a search for a length or a tag while the next block is decoded. -/
theorem decoding_grows_forest :
    (∀ (limit : ℕ) (t : FieldType) (scope : ScopeId) (name : String) (s : DecodeState),
      ∃ opened : Array Scope, ((t.decode limit scope name).final s).scopes =
        { arena := { scopes := s.scopes.arena.scopes ++ opened, blocks := s.scopes.arena.blocks }
          outer := s.scopes.outer }) ∧
      ∀ s : DecodeState, s.scopes.Reached →
        (∀ scope parent, s.scopes.arena.parent? scope = some parent → parent < scope) ∧
        (∀ scope, ∀ f ∈ s.scopes.arena.fields scope, ∀ inner ∈ f.pointers,
          scope < inner ∧ s.scopes.arena.parent? inner = some scope) ∧
        s.scopes.arena.pointers.Nodup ∧ s.scopes.arena.Searchable ∧
        ∀ (limit : ℕ) (t : FieldType) (block : StaticScope) (earlier : List (StaticScope × FieldType)),
          ∀ lookup ∈ (t.watchBlock limit earlier block).lookups s,
            lookup.scope < lookup.state.scopes.arena.scopes.size ∧
              lookup.state.scopes.arena.Searchable := by
  refine ⟨fun limit t scope name s => ?_, fun s hreached => ?_⟩
  · have hgrows : s.Grows none ((t.decode limit scope name).final s) := t.decode_grows limit scope name s
    exact hgrows.exists_opened
  · have hforest := hreached.forest
    refine ⟨fun _ _ => hforest.parent_lt, fun scope f hf inner hinner => ?_, hforest.pointers_nodup,
      hforest.searchable, fun limit t block earlier lookup hlookup => ?_⟩
    · exact hforest.of_pointsTo ⟨f, hf, hinner⟩
    · obtain ⟨hthere, hscope⟩ := FieldType.inForest_of_watchBlock limit earlier t block hforest hlookup
      exact ⟨hscope, hthere.searchable⟩

/-- Two points, each a structure, and then a number of bytes and that many bytes. -/
def pointsAndBytes : FieldType :=
  let byte : FieldType := .integer (.plain 8 false .little)
  .struct 1
    [("points", .array (.struct 1 [("x", byte)]) 2), ("n", byte),
      ("rest", .sequence (.struct 1 [("b", byte)]) ⟨.relative 0, "n", []⟩)]

/-- Before a block with the rest behind the points, and a block that breaks off behind its first point. -/
def beforeBlocks : DecodeState where
  cursor := .ofBytes ⟨#[1, 2, 1, 3, 4]⟩
  scopes := .empty

/-- Behind the two blocks. -/
def behindBlocks : DecodeState :=
  (pointsAndBytes.decodeBlock 10 .eventFields).final <|
    (pointsAndBytes.decodeBlock 10 .eventContext).final beforeBlocks

theorem decoding_grows_forest_pointsAndBytes :
    (behindBlocks.scopes.arena.pointers = [1, 2, 3] ∧ behindBlocks.scopes.arena.scopes.size = 7 ∧
      (∀ scope parent, behindBlocks.scopes.arena.parent? scope = some parent → parent < scope) ∧
      behindBlocks.scopes.arena.pointers.Nodup ∧ behindBlocks.scopes.arena.Searchable) ∧
      ∃ lookup ∈ (pointsAndBytes.watchBlock 10 [] .eventContext).lookups beforeBlocks,
        lookup.state.scopes.arena.Searchable := by
  have hreached : behindBlocks.scopes.Reached := .decodeBlock (.decodeBlock (.empty []) _ _ _) _ _ _
  obtain ⟨hparent, -, hnodup, hsearchable, -⟩ := decoding_grows_forest.2 behindBlocks hreached
  obtain ⟨-, -, -, -, hlookups⟩ := decoding_grows_forest.2 beforeBlocks (.empty [])
  have hlookup : 0 < ((pointsAndBytes.watchBlock 10 [] .eventContext).lookups beforeBlocks).length := by
    decide +kernel
  obtain ⟨lookup, hmem⟩ := List.exists_mem_of_length_pos hlookup
  exact ⟨⟨by decide +kernel, by decide +kernel, hparent, hnodup, hsearchable⟩,
    lookup, hmem, (hlookups _ _ _ _ lookup hmem).2⟩

end ScopeChain

end CommonTrace
