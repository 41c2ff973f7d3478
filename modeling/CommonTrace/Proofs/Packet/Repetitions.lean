import CommonTrace.Packet.Events
import CommonTrace.Proofs.Field.Searches
import CommonTrace.Proofs.Packet.Origin

/-!
# Repeated integers

The search for the last integer of a name goes from scope to scope, and what it finds later takes the place
of what it has found before.  `Arena.Flattens` says what it goes through: the fields as they follow each
other in the data, where a structure is replaced by its fields and a variant by the alternative that has
been selected, as deep as they are nested.  Arrays and sequences are left as they are, with all that is in
them.

In an arena into which blocks have been decoded there is exactly one such list for every scope, and the
search gives its last integer of the name (`Arena.Searchable.lastInteger?_of_flattens`).  So an event has the
last id and the last time that its header gives, wherever in the header they stand
(`EventHeader.last_integers_count`).
-/

namespace CommonTrace

/-- Whether the field is an integer or an enumeration of this name. -/
def Field.isIntegerCalled (name : String) (f : Field) : Bool :=
  f.integer?.isSome && f.name == name

/-- The integers and enumerations of this name among fields that are not looked into. -/
def Field.integersCalled (name : String) (flat : List Field) : List Field :=
  flat.filter (·.isIntegerCalled name)

namespace Arena

/-- **The fields, one after the other, with structures and variants opened up** at any depth. -/
inductive Flattens (a : Arena) : List Field → List Field → Prop
  | nil : Flattens a [] []
  | struct {name : String} {type : FieldType} {inner : ScopeId} {fields flat rest : List Field}
      (members : Flattens a (a.fields inner) flat) (others : Flattens a fields rest) :
      Flattens a (⟨name, type, .struct inner⟩ :: fields) (flat ++ rest)
  | variant {name : String} {type : FieldType} {selection : String} {selected : Field}
      {fields flat rest : List Field} (alternative : Flattens a [selected] flat)
      (others : Flattens a fields rest) :
      Flattens a (⟨name, type, .variant selection selected⟩ :: fields) (flat ++ rest)
  | single {f : Field} {fields rest : List Field} (hstruct : ∀ inner, f.value ≠ .struct inner)
      (hvariant : ∀ selection selected, f.value ≠ .variant selection selected)
      (others : Flattens a fields rest) : Flattens a (f :: fields) (f :: rest)

variable {a : Arena} {fields flat flat' early late : List Field}

namespace Flattens

lemma append (h : a.Flattens early flat) (h' : a.Flattens late flat') :
    a.Flattens (early ++ late) (flat ++ flat') := by
  induction h with
  | nil => exact h'
  | struct members _ _ ih => simpa using struct members ih
  | variant alternative _ _ ih => simpa using variant alternative ih
  | single hstruct hvariant _ ih => exact single hstruct hvariant ih

/-- There is only one way to open fields up. -/
lemma unique (h : a.Flattens fields flat) (h' : a.Flattens fields flat') : flat = flat' := by
  induction h generalizing flat' with
  | nil =>
    cases h'
    rfl
  | struct _ _ hmembers hothers =>
    cases h' with
    | struct members others => rw [hmembers members, hothers others]
    | single hstruct => exact absurd rfl (hstruct _)
  | variant _ _ halternative hothers =>
    cases h' with
    | variant alternative others => rw [halternative alternative, hothers others]
    | single _ hvariant => exact absurd rfl (hvariant _ _)
  | single hstruct hvariant _ hothers =>
    cases h' with
    | struct => exact absurd rfl (hstruct _)
    | variant => exact absurd rfl (hvariant _ _)
    | single _ _ others => rw [hothers others]

end Flattens

/-- A field can be opened up if the structures in it can. -/
lemma exists_flattens_of_pointers (f : Field)
    (h : ∀ inner ∈ f.pointers, ∃ flat, a.Flattens (a.fields inner) flat) :
    ∃ flat, a.Flattens [f] flat := by
  match f with
  | ⟨_, _, .struct inner⟩ =>
    obtain ⟨flat, members⟩ := h inner (List.mem_singleton_self inner)
    exact ⟨_, .struct members .nil⟩
  | ⟨_, _, .variant _ selected⟩ =>
    obtain ⟨flat, alternative⟩ := exists_flattens_of_pointers selected h
    exact ⟨_, .variant alternative .nil⟩
  | ⟨_, _, .integer _⟩ | ⟨_, _, .enum _ _⟩ | ⟨_, _, .float _⟩ | ⟨_, _, .text _⟩ =>
    exact ⟨_, .single nofun nofun .nil⟩
  | ⟨_, _, .array _⟩ | ⟨_, _, .sequence _⟩ => exact ⟨_, .single nofun nofun .nil⟩
termination_by structural f

/-- Where no way goes inwards for ever, fields of a scope can be opened up. -/
lemma Searchable.exists_flattens_of_subset (h : a.Searchable) (scope : ScopeId) (fields : List Field)
    (hsub : fields ⊆ a.fields scope) : ∃ flat, a.Flattens fields flat := by
  -- a scope that a field points at comes earlier in the order in which no way goes on for ever
  induction scope using h.inwards.induction generalizing fields with
  | _ scope ih =>
    induction fields with
    | nil => exact ⟨[], .nil⟩
    | cons f fields ihfields =>
      obtain ⟨hf, hsub⟩ := List.cons_subset.mp hsub
      obtain ⟨flat, hflat⟩ := exists_flattens_of_pointers f fun inner hinner =>
        ih inner ⟨f, hf, hinner⟩ _ (List.Subset.refl _)
      obtain ⟨rest, hrest⟩ := ihfields hsub
      exact ⟨flat ++ rest, hflat.append hrest⟩

lemma Searchable.exists_flattens (h : a.Searchable) (scope : ScopeId) :
    ∃ flat, a.Flattens (a.fields scope) flat :=
  h.exists_flattens_of_subset scope _ (List.Subset.refl _)

end Arena

/-! ## The last of its name -/

/-- What comes later counts, and what comes earlier if there is nothing later. -/
lemma Field.getLast?_integersCalled_append (name : String) (early late : List Field) :
    (integersCalled name (early ++ late)).getLast? =
      (integersCalled name late).getLast?.or (integersCalled name early).getLast? := by
  rw [integersCalled, List.filter_append, List.getLast?_append]
  rfl

namespace Arena

variable {a : Arena} {scope : ScopeId} {name : String} {fields flat flat' early late : List Field}

/-- What is neither a structure nor a variant is found if it is such an integer itself. -/
lemma lastIntegerIn?_of_single {f : Field} {g : ScopeId → Option Field}
    (hstruct : ∀ inner, f.value ≠ .struct inner)
    (hvariant : ∀ selection selected, f.value ≠ .variant selection selected) :
    lastIntegerIn? name g f = (Field.integersCalled name [f]).getLast? := by
  obtain ⟨own, type, value⟩ := f
  cases value with
  | integer | enum =>
    by_cases hown : own = name <;>
      simp [lastIntegerIn?, Field.integersCalled, Field.isIntegerCalled, Field.integer?, hown]
  | struct inner => exact absurd rfl (hstruct inner)
  | variant selection selected => exact absurd rfl (hvariant selection selected)
  | float | text | array | sequence => rfl

namespace Searchable

/-- **The search gives the last integer of the list**, or what it has found before if there is none. -/
lemma foldl_of_flattens (h : a.Searchable) (hflat : a.Flattens fields flat) (found : Option Field) :
    fields.foldl (fun found f => (lastIntegerIn? name (a.lastInteger? · name) f).or found) found =
      (Field.integersCalled name flat).getLast?.or found := by
  induction hflat generalizing found with
  | nil => rfl
  | @struct _ _ inner _ flat _ _ _ hmembers hothers =>
    have hinner : a.lastInteger? inner name = (Field.integersCalled name flat).getLast? := by
      rw [h.lastInteger?, lastIntegerStep, hmembers, Option.or_none]
    rw [List.foldl_cons, hothers, Field.getLast?_integersCalled_append, Option.or_assoc, lastIntegerIn?,
      hinner]
  | @variant _ _ _ selected _ flat _ _ _ halternative hothers =>
    have hselected : lastIntegerIn? name (a.lastInteger? · name) selected =
        (Field.integersCalled name flat).getLast? := by
      simpa using halternative none
    rw [List.foldl_cons, hothers, Field.getLast?_integersCalled_append, Option.or_assoc, lastIntegerIn?,
      hselected]
  | single hstruct hvariant _ hothers =>
    rw [List.foldl_cons, hothers, lastIntegerIn?_of_single hstruct hvariant, ← Option.or_assoc,
      ← Field.getLast?_integersCalled_append, List.singleton_append]

/-- **The last integer of a name** in a scope is the last one in the list of what the scope holds. -/
theorem lastInteger?_of_flattens (h : a.Searchable) (hflat : a.Flattens (a.fields scope) flat) :
    a.lastInteger? scope name = (Field.integersCalled name flat).getLast? := by
  rw [h.lastInteger?, lastIntegerStep, h.foldl_of_flattens hflat, Option.or_none]

/-- Of a scope in two parts, the later one counts, unless it holds no integer of the name. -/
lemma lastInteger?_of_append (h : a.Searchable) (hfields : a.fields scope = early ++ late)
    (hearly : a.Flattens early flat) (hlate : a.Flattens late flat') :
    a.lastInteger? scope name =
      (Field.integersCalled name flat').getLast?.or (Field.integersCalled name flat).getLast? := by
  rw [h.lastInteger?_of_flattens (hfields ▸ hearly.append hlate), Field.getLast?_integersCalled_append]

end Searchable

end Arena

/-! ## Event headers -/

namespace EventHeader

variable {limit : ℕ} {t : FieldType} {s s' : DecodeState} {header : EventHeader}

/-- The header of an event is in the latest block of headers. -/
lemma exists_of_decode (h : decode limit (some t) s = .ok header s') (hreached : s.scopes.Reached) :
    s'.scopes.Reached ∧
      ∃ scope, s'.scopes.arena.block? .streamEventHeader = some scope ∧
        header = ofScope s'.scopes.arena scope := by
  obtain ⟨scope, s₁, hdecode, hreturn⟩ := DecodeM.ok_of_bind h
  cases hreturn
  have hfinal := hreached.decodeBlock limit t .streamEventHeader
  rw [DecodeM.final, hdecode] at hfinal
  refine ⟨hfinal, scope, ?_, rfl⟩
  rw [t.block?_of_decodeBlock hdecode, if_pos rfl]

/-- **The last integer of a name counts.**  In an arena that decoding blocks has left, whatever blocks and
with or without success, the search for it ends by itself and gives the last one in the list of what the
scope holds: structures and selected alternatives are opened up, arrays and sequences are not.  So a header
gives an event the id and the time in its last members that have any; later members without one do not
matter. -/
theorem last_integers_count :
    (∀ chain : ScopeChain, chain.Reached →
      (WellFounded fun inner scope => chain.arena.PointsTo scope inner) ∧
      ∀ (scope : ScopeId) (name : String),
        (∀ depth > chain.arena.scopes.size,
          chain.arena.lastIntegerWithin? name depth scope = chain.arena.lastInteger? scope name) ∧
        ∃ flat, (∀ other, chain.arena.Flattens (chain.arena.fields scope) other ↔ other = flat) ∧
          chain.arena.lastInteger? scope name = (Field.integersCalled name flat).getLast? ∧
          (chain.arena.lastInteger? scope name = none ↔ Field.integersCalled name flat = [])) ∧
      ∀ (limit : ℕ) (t : FieldType) (s s' : DecodeState) (header : EventHeader), s.scopes.Reached →
        decode limit (some t) s = .ok header s' →
        ∃ scope, s'.scopes.arena.block? .streamEventHeader = some scope ∧
          ∀ early late, s'.scopes.arena.fields scope = early ++ late →
            ∃ flat flat', s'.scopes.arena.Flattens early flat ∧ s'.scopes.arena.Flattens late flat' ∧
              header.id = ((Field.integersCalled "id" flat').getLast?.or
                (Field.integersCalled "id" flat).getLast?).bind Field.unsigned? ∧
              header.time = ((Field.integersCalled "timestamp" flat').getLast?.or
                (Field.integersCalled "timestamp" flat).getLast?).bind fun f =>
                  f.integer?.map (·, f.type.clock?) := by
  refine ⟨fun chain hreached => ?_, fun limit t s s' header hreached hdecode => ?_⟩
  · have hforest := hreached.forest
    have hsearchable := hforest.searchable
    refine ⟨hsearchable.inwards, fun scope name => ⟨fun depth hdepth => ?_, ?_⟩⟩
    · have hweight : chain.arena.scopes.size - scope ≤ chain.arena.scopes.size := Nat.sub_le _ _
      exact (chain.arena.scopeSearch_lastInteger name).eq_of_weight_lt hforest.left_lt
        (Nat.lt_of_le_of_lt hweight hdepth) (Nat.lt_succ_of_le hweight)
    · obtain ⟨flat, hflat⟩ := hsearchable.exists_flattens scope
      have hlast : chain.arena.lastInteger? scope name = (Field.integersCalled name flat).getLast? :=
        hsearchable.lastInteger?_of_flattens hflat
      refine ⟨flat, fun _ => ⟨fun hother => hother.unique hflat, fun heq => heq ▸ hflat⟩, hlast, ?_⟩
      rw [hlast, List.getLast?_eq_none_iff]
  · obtain ⟨hreached', scope, hscope, rfl⟩ := exists_of_decode hdecode hreached
    have hsearchable := hreached'.forest.searchable
    refine ⟨scope, hscope, fun early late hfields => ?_⟩
    obtain ⟨flat, hearly⟩ := hsearchable.exists_flattens_of_subset scope early (by simp [hfields])
    obtain ⟨flat', hlate⟩ := hsearchable.exists_flattens_of_subset scope late (by simp [hfields])
    refine ⟨flat, flat', hearly, hlate, ?_, ?_⟩
    · rw [ofScope, hsearchable.lastInteger?_of_append hfields hearly hlate]
    · dsimp only [ofScope]
      rw [hsearchable.lastInteger?_of_append hfields hearly hlate]

/-- A header with an id and a time of eight bits, room for both once more behind the id 31, and a number. -/
def repeatingLayout : FieldType :=
  let byte : FieldType := .integer (.plain 8 false .little)
  .struct 1 [
    ("id", .enum {
      container := .plain 8 false .little
      ranges := [⟨"compact", 0, 30⟩, ⟨"extended", 31, 31⟩] }),
    ("timestamp", byte),
    ("v", .variant (some ⟨.relative 0, "id", []⟩) [
      ("compact", .struct 1 []),
      ("extended", .struct 1 [("id", byte), ("timestamp", .integer (.plain 16 false .little))])]),
    ("tries", byte)]

/-- Before such a header that makes use of the room. -/
def beforeRepetition : DecodeState where
  cursor := .ofBytes ⟨#[31, 7, 5, 232, 3, 9]⟩
  scopes := .empty

/-- The id and the time in the variant count, and the number behind it does not hide them. -/
theorem last_integers_count_repeated :
    ∃ header s' scope flat flat', decode 10 (some repeatingLayout) beforeRepetition = .ok header s' ∧
      header.id = some 5 ∧ header.time.map (fun (n, _) => n.value) = some (1000 : ℤ) ∧
      s'.scopes.arena.Flattens ((s'.scopes.arena.fields scope).take 3) flat ∧
      s'.scopes.arena.Flattens ((s'.scopes.arena.fields scope).drop 3) flat' ∧
      header.id = ((Field.integersCalled "id" flat').getLast?.or
        (Field.integersCalled "id" flat).getLast?).bind Field.unsigned? ∧
      s'.scopes.arena.lastIntegerWithin? "tries" 100 scope = s'.scopes.arena.lastInteger? scope "tries" := by
  have hreached : beforeRepetition.scopes.Reached := .empty []
  have hsucceeds : (match decode 10 (some repeatingLayout) beforeRepetition with
      | .ok header s' => decide (header.id = some 5 ∧
          header.time.map (fun (n, _) => n.value) = some (1000 : ℤ) ∧ s'.scopes.arena.scopes.size = 2)
      | .error _ _ => false) = true := by decide +kernel
  split at hsucceeds
  · rename_i header s' hdecode
    obtain ⟨hid, htime, hsize⟩ := of_decide_eq_true hsucceeds
    obtain ⟨hchains, hheaders⟩ := last_integers_count
    obtain ⟨scope, -, hparts⟩ := hheaders 10 repeatingLayout _ s' header hreached hdecode
    obtain ⟨flat, flat', hearly, hlate, hlast, -⟩ := hparts _ _ (List.take_append_drop 3 _).symm
    obtain ⟨-, hsearches⟩ := hchains s'.scopes (exists_of_decode hdecode hreached).1
    refine ⟨header, s', scope, flat, flat', hdecode, hid, htime, hearly, hlate, hlast, ?_⟩
    exact (hsearches scope "tries").1 100 (by omega)
  · cases hsucceeds

end EventHeader

end CommonTrace
