import CommonTrace.Field.Decode
import CommonTrace.Schema.Visibility
import Mathlib.Data.Nat.Notation
import Mathlib.Tactic.Lemma

/-!
# Which lookups a decoding makes

The fields decoded so far are consulted in two places of `FieldType.decodeValue`: for the length of a
sequence and for the tag of a variant.  To speak about all these lookups, also about those of a
decoding that fails later, a decoding is *watched*: it is performed as it is, and each lookup is noted
together with the state in which it is made and with the `View` that the check of the metadata has of
the place (`FieldType.watchValue`).

Watching changes nothing: without the notes the watched decoding is the decoding itself
(`FieldType.unwatched_watchValue`).

The view is built up on the way as the check does it.  A view also says to which stream and to which
event its place belongs, for the sake of error messages; nothing depends on that, and it is left open
here.
-/

namespace CommonTrace

/-! ## Watched decodings -/

/-- What is looked for. -/
inductive LookupPurpose where
  /-- The length of a sequence. -/
  | length
  /-- The tag of a variant. -/
  | tag
deriving DecidableEq, Repr

/-- A lookup of a path among the fields decoded so far. -/
structure Lookup where
  /-- What the path sees according to the metadata. -/
  view : View
  /-- The scope from which the path is resolved. -/
  scope : ScopeId
  /-- The path. -/
  path : FieldPath
  /-- What is looked for. -/
  purpose : LookupPurpose
  /-- The name of the sequence or the variant. -/
  field : String
  /-- The state of the decoding. -/
  state : DecodeState

/-- A decoding that gives all the lookups it makes besides its result. -/
def Watched (α : Type) : Type :=
  DecodeState → EStateM.Result DecodeError DecodeState α × List Lookup

namespace Watched

variable {α β : Type}

instance : Monad Watched where
  pure a := fun s => (.ok a s, [])
  bind m k := fun s =>
    match m s with
    | (.ok a s', lookups) => ((k a s').1, lookups ++ (k a s').2)
    | (.error e s', lookups) => (.error e s', lookups)

/-- A decoding that makes no lookups. -/
def quiet (m : DecodeM α) : Watched α :=
  fun s => (m s, [])

/-- Notes a lookup that is made in the present state. -/
def note (lookup : DecodeState → Lookup) : Watched Unit :=
  fun s => (.ok () s, [lookup s])

/-- The decoding without the notes. -/
def unwatched (m : Watched α) : DecodeM α :=
  fun s => (m s).1

/-- The lookups that the decoding makes when it starts in the given state. -/
def lookups (m : Watched α) (s : DecodeState) : List Lookup :=
  (m s).2

lemma unwatched_quiet (m : DecodeM α) : (quiet m).unwatched = m :=
  rfl

lemma unwatched_bind (m : Watched α) (k : α → Watched β) :
    (m >>= k).unwatched = m.unwatched >>= fun a => (k a).unwatched := by
  funext s
  simp only [unwatched, Bind.bind, EStateM.bind]
  split <;> rename_i h <;> rw [h]

lemma unwatched_map (f : α → β) (m : Watched α) : (f <$> m).unwatched = f <$> m.unwatched := by
  change (m >>= fun a => pure (f a)).unwatched = _
  rw [unwatched_bind]
  rfl

lemma unwatched_note_bind (lookup : DecodeState → Lookup) (m : Watched α) :
    (note lookup >>= fun _ => m).unwatched = m.unwatched :=
  unwatched_bind _ _

lemma lookups_pure (a : α) (s : DecodeState) : (pure a : Watched α).lookups s = [] :=
  rfl

lemma lookups_quiet (m : DecodeM α) (s : DecodeState) : (quiet m).lookups s = [] :=
  rfl

lemma lookups_note_bind (lookup : DecodeState → Lookup) (m : Watched α) (s : DecodeState) :
    (note lookup >>= fun _ => m).lookups s = lookup s :: m.lookups s :=
  rfl

/-- The lookups of two steps are those of the first and, if that succeeds, those of the second from
where it has arrived. -/
lemma mem_lookups_bind {m : Watched α} {k : α → Watched β} {s : DecodeState} {lookup : Lookup} :
    lookup ∈ (m >>= k).lookups s ↔ lookup ∈ m.lookups s ∨
      ∃ a s', m.unwatched s = .ok a s' ∧ lookup ∈ (k a).lookups s' := by
  simp only [lookups, unwatched, Bind.bind]
  split
  · rename_i a s' before h
    rw [h, List.mem_append]
    simp only [EStateM.Result.ok.injEq]
    refine or_congr_right ⟨fun hk => ⟨a, s', ⟨rfl, rfl⟩, hk⟩, ?_⟩
    rintro ⟨a', s'', ⟨rfl, rfl⟩, hk⟩
    exact hk
  · rename_i e s' before h
    rw [h]
    simp

lemma mem_lookups_map {f : α → β} {m : Watched α} {s : DecodeState} {lookup : Lookup} :
    lookup ∈ (f <$> m).lookups s ↔ lookup ∈ m.lookups s := by
  change lookup ∈ (m >>= fun a => pure (f a)).lookups s ↔ _
  rw [mem_lookups_bind]
  simp [lookups_pure]

/-- After a quiet step, the lookups are those of the rest. -/
lemma mem_lookups_quiet_bind {m : DecodeM α} {k : α → Watched β} {s : DecodeState}
    {lookup : Lookup} :
    lookup ∈ (quiet m >>= k).lookups s ↔
      ∃ a s', m s = .ok a s' ∧ lookup ∈ (k a).lookups s' := by
  rw [mem_lookups_bind, lookups_quiet, unwatched_quiet]
  simp

lemma unwatched_collectFrom (step : ℕ → Watched α) (index : ℕ) (before : List α) (count : ℕ) :
    (collectFrom step index before count).unwatched =
      collectFrom (fun index => (step index).unwatched) index before count := by
  induction count generalizing index before with
  | zero => rfl
  | succ count ih =>
    rw [collectFrom, collectFrom, unwatched_bind]
    exact congrArg _ (funext fun a => ih (index + 1) (a :: before))

end Watched

/-! ## The two places -/

/-- Finds the length of a sequence. -/
def watchLength (view : View) (scope : ScopeId) (path : FieldPath) (field : String) : Watched ℕ := do
  Watched.note fun state => { view, scope, path, purpose := .length, field, state }
  Watched.quiet (sequenceLength scope path field)

/-- Finds the name that the tag of a variant selects. -/
def watchSelection (view : View) (scope : ScopeId) (path : FieldPath) (field : String) :
    Watched String := do
  Watched.note fun state => { view, scope, path, purpose := .tag, field, state }
  Watched.quiet (selectedName scope path field)

/-! ## Values -/

namespace FieldType

open Watched

/-- Steps over padding, reads a value, and makes it a field. -/
def watchNamed (t : FieldType) (name : String) (value : Watched Value) : Watched Field := do
  quiet (DecodeM.align t.alignment)
  let value ← value
  return { name, type := t, value }

mutual

/-- Decodes a value of a type at a place of which the check has the given view. -/
def watchValue (limit : ℕ) (view : View) (t : FieldType) (scope : ScopeId) (name : String) :
    Watched Value :=
  match t with
  | .integer t => quiet (decodeValue limit (.integer t) scope name)
  | .float t => quiet (decodeValue limit (.float t) scope name)
  | .string encoding => quiet (decodeValue limit (.string encoding) scope name)
  | .enum t => quiet (decodeValue limit (.enum t) scope name)
  | .array element length => do
    quiet (checkLength limit name length)
    if element.isCharacter then quiet (Value.text <$> readText length)
    else
      Value.array <$> collectElements length fun index =>
        element.watchNamed index (watchValue limit view element scope index)
  | .sequence element path => do
    let length ← watchLength view scope path name
    quiet (checkLength limit name length)
    if element.isCharacter then quiet (Value.text <$> readText length)
    else
      Value.sequence <$> collectElements length fun index =>
        element.watchNamed index (watchValue limit view element scope index)
  | .struct _ fields => do
    let inner ← quiet (DecodeM.openChild scope name)
    watchFields limit view [] fields inner
    return .struct inner
  | .variant none _ => quiet (throw (.path (.untagged name)))
  | .variant (some tag) alternatives => do
    let selection ← watchSelection view scope tag name
    Value.variant selection <$> watchAlternative limit view alternatives selection scope name
termination_by structural t

/-- Decodes fields one after the other, where `before` are the fields before them, the latest
first. -/
def watchFields (limit : ℕ) (view : View) (before fields : List (String × FieldType))
    (scope : ScopeId) : Watched Unit :=
  match fields with
  | [] => pure ()
  | (name, t) :: rest => do
    let field ← t.watchNamed name (watchValue limit (view.enter before) t scope name)
    quiet (DecodeM.bindField scope field)
    watchFields limit view ((name, t) :: before) rest scope
termination_by structural fields

/-- Decodes the alternative of the given name. -/
def watchAlternative (limit : ℕ) (view : View) (alternatives : List (String × FieldType))
    (selection : String) (scope : ScopeId) (name : String) : Watched Field :=
  match alternatives with
  | [] => quiet (throw (.unknownVariantTag selection name))
  | (alternative, t) :: rest =>
    if alternative = selection then
      t.watchNamed selection (watchValue limit view t scope selection)
    else watchAlternative limit view rest selection scope name
termination_by structural alternatives

end

/-- Decodes what a block holds into its scope. -/
def watchContents (limit : ℕ) (view : View) (t : FieldType) (block : StaticScope)
    (scope : ScopeId) : Watched Unit :=
  match t with
  | .struct least fields => do
    quiet (DecodeM.align (FieldType.struct least fields).alignment)
    watchFields limit view [] fields scope
  | t => do
    let field ← t.watchNamed block.name (watchValue limit view t scope block.name)
    quiet (DecodeM.bindField scope field)

/-- Decodes a block behind the blocks in `earlier`, the latest of which is first. -/
def watchBlock (limit : ℕ) (earlier : List (StaticScope × FieldType)) (t : FieldType)
    (block : StaticScope) : Watched ScopeId := do
  let scope ← quiet (DecodeM.openBlock block)
  let view : View := { place := { stream := 0, event := none, block }, earlier, frames := [] }
  watchContents limit view t block scope
  return scope

/-! ## Watching changes nothing -/

lemma unwatched_watchNamed (t : FieldType) (name : String) (value : Watched Value) :
    (t.watchNamed name value).unwatched = t.named name value.unwatched := by
  rw [watchNamed, unwatched_bind]
  refine congrArg _ (funext fun _ => ?_)
  rw [unwatched_bind]
  rfl

lemma unwatched_elements {element : FieldType} {count : ℕ} {value : String → Watched Value} :
    (collectElements count fun index => element.watchNamed index (value index)).unwatched =
      collectElements count fun index => element.named index (value index).unwatched := by
  rw [collectElements, unwatched_collectFrom]
  simp only [unwatched_watchNamed]
  rfl

mutual

/-- Without the notes a watched decoding is the decoding itself. -/
theorem unwatched_watchValue (limit : ℕ) (view : View) (t : FieldType) (scope : ScopeId)
    (name : String) : (watchValue limit view t scope name).unwatched =
      decodeValue limit t scope name := by
  match t with
  | .integer _ | .float _ | .string _ | .enum _ => rfl
  | .array element length =>
    have helement := fun index => unwatched_watchValue limit view element scope index
    rw [watchValue, decodeValue, unwatched_bind]
    refine congrArg _ (funext fun _ => ?_)
    split
    · rfl
    · rw [unwatched_map, unwatched_elements]
      simp only [helement]
  | .sequence element path =>
    have helement := fun index => unwatched_watchValue limit view element scope index
    rw [watchValue, decodeValue, unwatched_bind, watchLength, unwatched_note_bind]
    refine congrArg _ (funext fun length => ?_)
    rw [unwatched_bind]
    refine congrArg _ (funext fun _ => ?_)
    split
    · rfl
    · rw [unwatched_map, unwatched_elements]
      simp only [helement]
  | .struct _ fields =>
    rw [watchValue, decodeValue, unwatched_bind]
    refine congrArg _ (funext fun inner => ?_)
    rw [unwatched_bind, unwatched_watchFields limit view [] fields inner]
    rfl
  | .variant none _ => rfl
  | .variant (some tag) alternatives =>
    rw [watchValue, decodeValue, unwatched_bind, watchSelection, unwatched_note_bind]
    refine congrArg _ (funext fun selection => ?_)
    rw [unwatched_map, unwatched_watchAlternative limit view alternatives selection scope name]
termination_by structural t

theorem unwatched_watchFields (limit : ℕ) (view : View) (before fields : List (String × FieldType))
    (scope : ScopeId) : (watchFields limit view before fields scope).unwatched =
      decodeFields limit fields scope := by
  match fields with
  | [] => rfl
  | (name, t) :: rest =>
    rw [watchFields, decodeFields, unwatched_bind, unwatched_watchNamed,
      unwatched_watchValue limit (view.enter before) t scope name]
    refine congrArg _ (funext fun field => ?_)
    rw [unwatched_bind]
    refine congrArg _ (funext fun _ => ?_)
    exact unwatched_watchFields limit view ((name, t) :: before) rest scope
termination_by structural fields

theorem unwatched_watchAlternative (limit : ℕ) (view : View)
    (alternatives : List (String × FieldType)) (selection : String) (scope : ScopeId)
    (name : String) : (watchAlternative limit view alternatives selection scope name).unwatched =
      decodeAlternative limit alternatives selection scope name := by
  match alternatives with
  | [] => rfl
  | (alternative, t) :: rest =>
    rw [watchAlternative, decodeAlternative]
    split
    · rw [unwatched_watchNamed, unwatched_watchValue limit view t scope selection]
    · exact unwatched_watchAlternative limit view rest selection scope name
termination_by structural alternatives

end

lemma unwatched_watchContents (limit : ℕ) (view : View) (t : FieldType) (block : StaticScope)
    (scope : ScopeId) : (watchContents limit view t block scope).unwatched =
      t.decodeContents limit block scope := by
  have hother : (t.watchNamed block.name (watchValue limit view t scope block.name) >>=
      fun field => quiet (DecodeM.bindField scope field)).unwatched =
        t.decode limit scope block.name >>= DecodeM.bindField scope := by
    rw [unwatched_bind, unwatched_watchNamed, unwatched_watchValue]
    rfl
  cases t with
  | struct least fields =>
    rw [watchContents, decodeContents, unwatched_bind]
    refine congrArg _ (funext fun _ => ?_)
    exact unwatched_watchFields limit view [] fields scope
  | _ => exact hother

theorem unwatched_watchBlock (limit : ℕ) (earlier : List (StaticScope × FieldType)) (t : FieldType)
    (block : StaticScope) :
    (watchBlock limit earlier t block).unwatched = t.decodeBlock limit block := by
  rw [watchBlock, decodeBlock, unwatched_bind]
  refine congrArg _ (funext fun scope => ?_)
  rw [unwatched_bind, unwatched_watchContents]
  rfl

end FieldType

end CommonTrace
