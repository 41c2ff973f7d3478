import CommonTrace.Proofs.Field.Contents
import CommonTrace.Schema.Visibility
import Mathlib.Data.List.Forall2
import Mathlib.Data.List.Nodup

/-!
# What the metadata says is visible is there

The check of the metadata looks a path up among declared members (`View.resolve?`), and decoding looks
it up among decoded fields (`ScopeChain.resolve?`).  `ScopeChain.Sees` is the relation between the two
worlds that makes them agree: every structure that is open around a place corresponds to one frame of
the view, and every block decoded before corresponds to one block that the view has as earlier.  In
both cases the scope mirrors the members (`Arena.Mirrors`): it has a field of the declared type for
each of them, and no others.

A path is *plain* for a view (`View.IsPlain`) if it does not climb out of its block and if it does not
descend into a variant, of which the alternative that is there is not known beforehand.  For plain
paths the two lookups agree: `ScopeChain.Sees.resolve?`.
-/

namespace CommonTrace

/-! ## Lookups by name -/

/-- Where no name occurs twice, the order of the names does not matter. -/
lemma lookup_reverse {κ ν : Type} [BEq κ] [LawfulBEq κ] {entries : List (κ × ν)} {key : κ}
    (h : (entries.map Prod.fst).Nodup) : entries.reverse.lookup key = entries.lookup key := by
  induction entries with
  | nil => rfl
  | cons entry entries ih =>
    obtain ⟨other, value⟩ := entry
    rw [List.map_cons, List.nodup_cons] at h
    obtain ⟨hnotin, hnodup⟩ := h
    rw [List.reverse_cons, List.lookup_append, ih hnodup, List.lookup_cons]
    by_cases hkey : key = other
    · subst hkey
      have hnone : entries.lookup key = none := by
        refine List.lookup_eq_none_iff.mpr fun entry hentry => ?_
        rw [bne_iff_ne]
        rintro rfl
        exact hnotin (List.mem_map.mpr ⟨entry, hentry, rfl⟩)
      simp [hnone]
    · have hbeq : (key == other) = false := beq_false_of_ne hkey
      simp [List.lookup_cons, hbeq]

lemma find?_map_snd {κ ν : Type} [DecidableEq κ] (entries : List (κ × ν)) (key : κ) :
    (entries.find? (·.1 = key)).map Prod.snd = entries.lookup key := by
  induction entries with
  | nil => rfl
  | cons entry entries ih =>
    obtain ⟨other, value⟩ := entry
    rw [List.find?_cons, List.lookup_cons]
    by_cases hkey : other = key
    · simp [hkey]
    · have hbeq : (key == other) = false := beq_false_of_ne (Ne.symm hkey)
      simp [hkey, hbeq, ih]

/-! ## Scopes and members -/

namespace Arena

variable {a a' : Arena} {lo hi : ℕ} {root scope : ScopeId} {name : String}
  {before members : List (String × FieldType)} {frames : List (List (String × FieldType))}

/-- A field of the given type, with a value of that type. -/
def Fits (a : Arena) (f : Field) (t : FieldType) : Prop :=
  f.type = t ∧ ∃ lo hi, a.Holds lo hi t f.value

/-- Descending from a field follows descending in its type, unless it goes into a variant. -/
lemma Fits.descend? {f : Field} {t u : FieldType} {names : List String} (h : a.Fits f t)
    (henters : t.entersVariant names = false) (hu : t.descend? names = some u) :
    ∃ g, a.descend? f names = some g ∧ a.Fits g u := by
  obtain ⟨htype, lo, hi, hvalue⟩ := h
  obtain ⟨g, hg, hgtype, hgvalue⟩ := hvalue.descend? htype henters hu
  exact ⟨g, hg, hgtype, lo, hi, hgvalue⟩

/-- A scope has a field for each of the members, and no others.  Of members of the same name only the
first counts. -/
structure Mirrors (a : Arena) (scope : ScopeId) (members : List (String × FieldType)) : Prop where
  found : ∀ {name : String} {t : FieldType}, members.lookup name = some t →
    ∃ f, a.field? scope name = some f ∧ a.Fits f t
  missing : ∀ {name : String}, members.lookup name = none → a.field? scope name = none

lemma HoldsFields.mirrors (h : a.HoldsFields lo hi members (a.fields scope)) :
    a.Mirrors scope members where
  found ht := by
    obtain ⟨f, hf, htype, hvalue⟩ := h.find?_of_lookup ht
    have hfield := (a.field?_eq_find? scope _).trans hf
    exact ⟨f, hfield, htype, lo, hi, hvalue⟩
  missing ht := (a.field?_eq_find? scope _).trans (h.find?_of_lookup_eq_none ht)

/-- The fields of an open scope are the members in `before`, the latest of which is first.  All
scopes of their values lie behind the open scope and before `hi`. -/
structure Binds (a : Arena) (hi : ℕ) (scope : ScopeId) (before : List (String × FieldType)) :
    Prop where
  lt : scope < hi
  distinct : (before.map Prod.fst).Nodup
  fields : a.HoldsFields (scope + 1) hi before.reverse (a.fields scope)

lemma Binds.mirrors (h : a.Binds hi scope before) : a.Mirrors scope before where
  found ht := h.fields.mirrors.found ((lookup_reverse h.distinct).trans ht)
  missing ht := h.fields.mirrors.missing ((lookup_reverse h.distinct).trans ht)

/-- **Open structures.**  The scopes from `scope` outwards are open, `root` is the outermost, and each
has the members of one frame.  What has been decoded into a scope lies before the next one inside. -/
inductive Opens (a : Arena) (root : ScopeId) :
    ℕ → ScopeId → List (List (String × FieldType)) → Prop
  /-- The scope of the block. -/
  | block {hi : ℕ} {before : List (String × FieldType)} (binds : a.Binds hi root before)
      (parent : a.parent? root = none) : Opens a root hi root [before]
  /-- The scope of a structure in another one. -/
  | inner {hi : ℕ} {scope outer : ScopeId} {before : List (String × FieldType)}
      {frames : List (List (String × FieldType))} (binds : a.Binds hi scope before)
      (parent : a.parent? scope = some outer) (rest : Opens a root scope outer frames) :
      Opens a root hi scope (before :: frames)

lemma Opens.lt (h : a.Opens root hi scope frames) : scope < hi := by
  cases h with
  | block binds => exact binds.lt
  | inner binds => exact binds.lt

lemma Opens.root_le (h : a.Opens root hi scope frames) : root ≤ scope := by
  induction h with
  | block => exact Nat.le_refl _
  | inner _ _ rest ih => exact Nat.le_trans ih (Nat.le_of_lt rest.lt)

lemma Opens.length_pos (h : a.Opens root hi scope frames) : 0 < frames.length := by
  cases h <;> exact Nat.zero_lt_succ _

/-- Going outwards from an open scope passes one open scope for each frame. -/
lemma Opens.outwards (h : a.Opens root hi scope frames) {depth : ℕ} (hdepth : scope < depth) :
    List.Forall₂ a.Mirrors (a.outwards depth scope) frames := by
  induction h generalizing depth with
  | block binds parent =>
    obtain _ | depth := depth
    · exact absurd hdepth (Nat.not_lt_zero _)
    · rw [Arena.outwards, parent]
      exact .cons binds.mirrors .nil
  | inner binds parent rest ih =>
    obtain _ | depth := depth
    · exact absurd hdepth (Nat.not_lt_zero _)
    · have hrest := Nat.lt_of_lt_of_le rest.lt (Nat.le_of_lt_succ hdepth)
      rw [Arena.outwards, parent]
      exact .cons binds.mirrors (ih hrest)

/-- The outermost open scope is among those that are left after climbing less than all the way. -/
lemma Opens.root_mem (h : a.Opens root hi scope frames) {depth up : ℕ} (hdepth : scope < depth)
    (hup : up < frames.length) : root ∈ (a.outwards depth scope).drop up := by
  induction h generalizing depth up with
  | block binds parent =>
    obtain _ | depth := depth
    · exact absurd hdepth (Nat.not_lt_zero _)
    · obtain rfl : up = 0 := by simpa using hup
      rw [Arena.outwards, List.drop_zero]
      exact List.mem_cons_self
  | inner binds parent rest ih =>
    obtain _ | depth := depth
    · exact absurd hdepth (Nat.not_lt_zero _)
    · have hrest := Nat.lt_of_lt_of_le rest.lt (Nat.le_of_lt_succ hdepth)
      rw [Arena.outwards, parent]
      cases up with
      | zero =>
        exact List.mem_cons_of_mem _ (ih hrest rest.length_pos)
      | succ up => exact ih hrest (by simpa using hup)

lemma Opens.getLast? (h : a.Opens root hi scope frames) :
    ∃ before, frames.getLast? = some before ∧ a.Mirrors root before := by
  induction h with
  | block binds => exact ⟨_, rfl, binds.mirrors⟩
  | inner _ _ rest ih =>
    obtain ⟨before, hbefore, hmirrors⟩ := ih
    refine ⟨before, ?_, hmirrors⟩
    rw [List.getLast?_cons, hbefore]
    rfl

end Arena

/-! ## Blocks -/

namespace ScopeChain

/-- The blocks of a chain with the arenas they are in, the latest first. -/
def registered (chain : ScopeChain) : List (Arena × StaticScope × ScopeId) :=
  chain.arenas.flatMap fun a => a.blocks.reverse.map (a, ·)

/-- The scope of a registered block mirrors the layout of the block, which is a structure. -/
def Completed (entry : Arena × StaticScope × ScopeId) (block : StaticScope × FieldType) : Prop :=
  entry.2.1 = block.1 ∧
    ∃ least members, block.2 = .struct least members ∧ entry.1.Mirrors entry.2.2 members

/-- The scope of a block is that of the first registered block of the name, if none occurs twice. -/
lemma block?_eq (chain : ScopeChain) (block : StaticScope)
    (h : (chain.registered.map (·.2.1)).Nodup) :
    chain.block? block =
      (chain.registered.find? (·.2.1 = block)).map fun entry => (entry.1, entry.2.2) := by
  unfold block? registered at *
  generalize chain.arenas = arenas at *
  induction arenas with
  | nil => rfl
  | cons a arenas ih =>
    rw [List.flatMap_cons, List.map_append, List.nodup_append] at h
    obtain ⟨hhere, hthere, -⟩ := h
    have hnodup : (a.blocks.reverse.map Prod.fst).Nodup := by
      simpa [Function.comp_def] using hhere
    have hblock : a.block? block = (a.blocks.reverse.find? (·.1 = block)).map Prod.snd := by
      rw [find?_map_snd, Arena.block?, ← lookup_reverse hnodup, List.reverse_reverse]
    rw [List.findSome?_cons, List.flatMap_cons, List.find?_append, List.find?_map, hblock, ih hthere]
    simp only [Function.comp_def]
    cases a.blocks.reverse.find? (·.1 = block) <;> rfl

/-- The search through all blocks goes through the registered ones. -/
lemma searchBlocks?_eq (chain : ScopeChain) (path : FieldPath) :
    chain.searchBlocks? path =
      (chain.registered.findSome? fun entry =>
        (entry.1.field? entry.2.2 path.head).map (entry.1, ·)).bind
          fun found => found.1.descend? found.2 path.tail := by
  unfold searchBlocks? registered
  congr 1
  generalize chain.arenas = arenas
  induction arenas with
  | nil => rfl
  | cons a arenas ih =>
    rw [List.findSome?_cons, List.flatMap_cons, List.findSome?_append, List.findSome?_map, ih]
    simp only [Function.comp_def]
    cases a.blocks.reverse.findSome? fun entry => (a.field? entry.2 path.head).map (a, ·) <;> rfl

/-- A chain that is looked at from a place of a block: the scopes from `scope` outwards mirror the
frames of the view, and the other blocks mirror those that the view has as earlier. -/
structure Sees (chain : ScopeChain) (scope : ScopeId) (view : View) (root : ScopeId)
    (others : List (Arena × StaticScope × ScopeId)) : Prop where
  opens : chain.arena.Opens root chain.arena.scopes.size scope view.frames
  registered : chain.registered = (chain.arena, view.place.block, root) :: others
  completed : List.Forall₂ Completed others view.earlier
  distinct : (view.place.block :: view.earlier.map Prod.fst).Nodup

variable {chain : ScopeChain} {scope root : ScopeId} {view : View}
  {others : List (Arena × StaticScope × ScopeId)} {earlier : List (StaticScope × FieldType)}

lemma names_of_completed (h : List.Forall₂ Completed others earlier) :
    others.map (·.2.1) = earlier.map Prod.fst := by
  induction h with
  | nil => rfl
  | cons hentry _ ih => rw [List.map_cons, List.map_cons, hentry.1, ih]

/-- An earlier block is among the registered ones. -/
lemma find?_of_completed {block : StaticScope} {t : FieldType}
    (h : List.Forall₂ Completed others earlier) (ht : earlier.lookup block = some t) :
    ∃ entry, others.find? (·.2.1 = block) = some entry ∧ Completed entry (block, t) := by
  induction h with
  | nil => cases ht
  | @cons entry block' others earlier hentry _ ih =>
    obtain ⟨other, u⟩ := block'
    by_cases hblock : block = other
    · subst hblock
      rw [List.lookup_cons_self] at ht
      obtain rfl : u = t := Option.some.inj ht
      exact ⟨entry, by simp [hentry.1], hentry⟩
    · rw [List.lookup_cons, beq_false_of_ne hblock] at ht
      obtain ⟨found, hfound, hcompleted⟩ := ih ht
      refine ⟨found, ?_, hcompleted⟩
      have hne : entry.2.1 ≠ block := fun he => hblock (he.symm.trans hentry.1)
      simpa [hne] using hfound

/-- The nearest earlier block with a member of the name is the nearest registered one with a field of
the name. -/
lemma findSome?_of_completed {name : String} {t : FieldType}
    (h : List.Forall₂ Completed others earlier)
    (ht : (earlier.findSome? fun block => block.2.member? name) = some t) :
    ∃ a f, (others.findSome? fun entry => (entry.1.field? entry.2.2 name).map (entry.1, ·)) =
      some (a, f) ∧ a.Fits f t := by
  induction h with
  | nil => cases ht
  | @cons entry block others earlier hentry _ ih =>
    obtain ⟨-, least, members, hstruct, hmirrors⟩ := hentry
    rw [List.findSome?_cons, hstruct] at ht
    rw [List.findSome?_cons]
    cases hmember : members.lookup name with
    | some u =>
      obtain ⟨f, hf, hfits⟩ := hmirrors.found hmember
      simp only [FieldType.member?, hmember, Option.some.injEq] at ht
      subst ht
      rw [hf]
      exact ⟨entry.1, f, rfl, hfits⟩
    | none =>
      simp only [FieldType.member?, hmember] at ht
      rw [hmirrors.missing hmember]
      exact ih ht

/-- The nearest frame with a member of the name is the nearest open scope with a field of the name. -/
lemma findSome?_of_mirrors {a : Arena} {scopes : List ScopeId}
    {frames : List (List (String × FieldType))} (name : String)
    (h : List.Forall₂ a.Mirrors scopes frames) :
    match frames.findSome? (·.lookup name) with
    | some t => ∃ f, scopes.findSome? (a.field? · name) = some f ∧ a.Fits f t
    | none => scopes.findSome? (a.field? · name) = none := by
  induction h with
  | nil => rfl
  | @cons scope before scopes frames hmirrors _ ih =>
    rw [List.findSome?_cons, List.findSome?_cons]
    cases hmember : before.lookup name with
    | some t =>
      obtain ⟨f, hf, hfits⟩ := hmirrors.found hmember
      exact ⟨f, by rw [hf], hfits⟩
    | none =>
      rw [hmirrors.missing hmember]
      exact ih

end ScopeChain

/-! ## Resolving paths -/

/-- Whether a path that starts at the anchor stays in the block: it is absolute, or it climbs less
structures than there are around the place. -/
def View.Encloses (view : View) : Anchor → Prop
  | .absolute _ => True
  | .relative up => up < view.frames.length

/-- Whether a path stays where both lookups must agree: it stays in the block, and it does not descend
into a variant. -/
def View.IsPlain (view : View) (path : FieldPath) : Prop :=
  view.Encloses path.anchor ∧ ∀ t ∈ view.head? path, t.entersVariant path.tail = false

instance (view : View) (anchor : Anchor) : Decidable (view.Encloses anchor) :=
  match anchor with
  | .absolute _ => .isTrue trivial
  | .relative up => inferInstanceAs (Decidable (up < view.frames.length))

instance (view : View) (path : FieldPath) : Decidable (view.IsPlain path) :=
  inferInstanceAs (Decidable (_ ∧ _))

namespace ScopeChain

variable {chain : ScopeChain} {scope root : ScopeId} {view : View}
  {others : List (Arena × StaticScope × ScopeId)} {path : FieldPath}

lemma Sees.registered_nodup (h : chain.Sees scope view root others) :
    (chain.registered.map (·.2.1)).Nodup := by
  rw [h.registered, List.map_cons, names_of_completed h.completed]
  exact h.distinct

/-- Where the view has a member of a block, the block has a field. -/
lemma Sees.headInBlock? (h : chain.Sees scope view root others) {block : StaticScope}
    {name : String} {t : FieldType} (ht : view.headInBlock? block name = some t) :
    ∃ (a : Arena) (home : ScopeId) (f : Field),
      chain.block? block = some (a, home) ∧ a.field? home name = some f ∧ a.Fits f t := by
  rw [chain.block?_eq block h.registered_nodup, h.registered]
  by_cases hblock : block = view.place.block
  · subst hblock
    obtain ⟨before, hbefore, hmirrors⟩ := h.opens.getLast?
    rw [View.headInBlock?, if_pos rfl, hbefore, Option.bind_some] at ht
    obtain ⟨f, hf, hfits⟩ := hmirrors.found ht
    exact ⟨chain.arena, root, f, by simp, hf, hfits⟩
  · rw [View.headInBlock?, if_neg hblock] at ht
    obtain ⟨u, hu, hmember⟩ := Option.bind_eq_some_iff.mp ht
    obtain ⟨entry, hentry, -, least, members, hstruct, hmirrors⟩ :=
      find?_of_completed h.completed hu
    obtain rfl : u = .struct least members := hstruct
    obtain ⟨f, hf, hfits⟩ := hmirrors.found hmember
    refine ⟨entry.1, entry.2.2, f, ?_, hf, hfits⟩
    rw [List.find?_cons_of_neg (by simpa using Ne.symm hblock), hentry, Option.map_some]

/-- Climbing as the path says, the two lookups pass the same structures and blocks. -/
lemma Sees.resolve?_relative (h : chain.Sees scope view root others) {up : ℕ} {t : FieldType}
    (hanchor : path.anchor = .relative up) (hup : up < view.frames.length)
    (ht : view.headFrom? up path.head = some t) :
    ∃ (a : Arena) (f : Field), chain.resolve? scope path = a.descend? f path.tail ∧ a.Fits f t := by
  have hmirrors := List.forall₂_drop up (h.opens.outwards h.opens.lt)
  have hroot := h.opens.root_mem h.opens.lt hup
  have hvisible := findSome?_of_mirrors path.head hmirrors
  rw [ScopeChain.resolve?, hanchor]
  unfold View.headFrom? at ht
  cases hframes : (view.frames.drop up).findSome? (·.lookup path.head) with
  | some u =>
    rw [hframes] at ht hvisible
    obtain rfl : u = t := Option.some.inj ht
    obtain ⟨f, hf, hfits⟩ := hvisible
    refine ⟨chain.arena, f, ?_, hfits⟩
    simp only [Arena.enclosing, hf]
  | none =>
    rw [hframes] at ht hvisible
    -- The block of the place is searched once more among all blocks, but it is visible already.
    have hhere : chain.arena.field? root path.head = none :=
      List.findSome?_eq_none_iff.mp hvisible root hroot
    obtain ⟨a, f, hf, hfits⟩ := findSome?_of_completed h.completed ht
    refine ⟨a, f, ?_, hfits⟩
    simp only [Arena.enclosing, hvisible]
    rw [searchBlocks?_eq, h.registered, List.findSome?_cons, hhere]
    simp only [Option.map_none, hf, Option.bind_some]

/-- **The two lookups agree.**  What a plain path leads to according to the view is there among the
decoded fields, with the type that the view has found and a value of that type. -/
theorem Sees.resolve? (h : chain.Sees scope view root others) (hplain : view.IsPlain path)
    {t : FieldType} (ht : view.resolve? path = some t) :
    ∃ (a : Arena) (f : Field), chain.resolve? scope path = some f ∧ a.Fits f t := by
  obtain ⟨u, hhead, htail⟩ := Option.bind_eq_some_iff.mp ht
  have henters := hplain.2 u hhead
  cases hanchor : path.anchor with
  | absolute block =>
    rw [View.head?, hanchor] at hhead
    obtain ⟨a, home, g, hblock, hg, hgfits⟩ := h.headInBlock? hhead
    obtain ⟨f, hf, hfits⟩ := hgfits.descend? henters htail
    refine ⟨a, f, ?_, hfits⟩
    rw [ScopeChain.resolve?, hanchor]
    simp only [resolveInBlock?, hblock, hg, Option.bind_eq_bind, Option.bind_some, hf]
  | relative up =>
    have hencloses := hplain.1
    rw [hanchor] at hencloses
    rw [View.head?, hanchor] at hhead
    obtain ⟨a, g, hresolve, hgfits⟩ := h.resolve?_relative hanchor hencloses hhead
    obtain ⟨f, hf, hfits⟩ := hgfits.descend? henters htail
    exact ⟨a, f, hresolve.trans hf, hfits⟩

end ScopeChain

end CommonTrace
