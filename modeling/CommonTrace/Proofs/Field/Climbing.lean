import CommonTrace.Proofs.Field.Agreement

/-!
# Paths that climb out of their block

A relative path may climb as many structures as there are around its place, or more.  Then no open
structure is left to search, and what remains are the blocks.  The check of the metadata goes through the
blocks *before* the one in which the path stands, decoding goes through *all* blocks registered so far,
and the block that is being decoded is one of them, the latest.  So the two lookups part where that block
already has a field with the name of the head: decoding stops there.

`Lookup.Placed.found_iff_of_climbs` says that this is the only difference.  Where the block has no such
field, what the check has found is found; where it has one, decoding finds what the path leads to from
it.
-/

namespace CommonTrace

/-! ## Paths and blocks -/

namespace View

/-- Whether a path that starts at the anchor climbs out of all structures around the place. -/
def Leaves (view : View) : Anchor → Prop
  | .absolute _ => False
  | .relative up => view.frames.length ≤ up

/-- The type of the field that the block of the place has under the name of the head of a path, as far
as it has been decoded. -/
def own? (view : View) (path : FieldPath) : Option FieldType :=
  view.frames.getLast?.bind (·.lookup path.head)

/-- Whether a path climbs out of its block and descends into no variant, neither from where the check
finds its head nor from the field that its block has under that name. -/
def ClimbsOut (view : View) (path : FieldPath) : Prop :=
  view.Leaves path.anchor ∧ (∀ t ∈ view.head? path, t.entersVariant path.tail = false) ∧
    ∀ t ∈ view.own? path, t.entersVariant path.tail = false

/-- Whether the block of the place has a field of that name which leads elsewhere. -/
def Overtakes (view : View) (path : FieldPath) : Prop :=
  ∃ t ∈ view.own? path, t.descend? path.tail ≠ view.resolve? path

instance (view : View) (anchor : Anchor) : Decidable (view.Leaves anchor) :=
  match anchor with
  | .absolute _ => .isFalse id
  | .relative up => inferInstanceAs (Decidable (view.frames.length ≤ up))

instance (view : View) (path : FieldPath) : Decidable (view.ClimbsOut path) :=
  inferInstanceAs (Decidable (_ ∧ _))

/-- A path that climbs out of its block is looked up in the blocks before. -/
lemma head?_of_leaves {view : View} {path : FieldPath} (h : view.Leaves path.anchor) :
    view.head? path = view.earlier.findSome? fun block => block.2.member? path.head := by
  rw [head?]
  cases hanchor : path.anchor with
  | absolute => rw [hanchor] at h; cases h
  | relative up =>
    rw [hanchor] at h
    simp only [headFrom?, List.drop_eq_nil_of_le h, List.findSome?_nil]

end View

/-! ## The two lookups -/

/-- What a field leads to has the type that its own type leads to. -/
lemma Arena.Fits.map_type_descend? {a : Arena} {f : Field} {t : FieldType} {names : List String}
    (h : a.Fits f t) (henters : t.entersVariant names = false) :
    (a.descend? f names).map Field.type = t.descend? names := by
  cases ht : t.descend? names with
  | some u =>
    obtain ⟨g, hg, hgfits⟩ := h.descend? henters ht
    rw [hg, Option.map_some, hgfits.1]
  | none =>
    obtain ⟨htype, lo, hi, hvalue⟩ := h
    rw [hvalue.descend?_eq_none htype henters ht, Option.map_none]

namespace ScopeChain

variable {chain : ScopeChain} {scope root : ScopeId} {view : View}
  {others : List (Arena × StaticScope × ScopeId)} {path : FieldPath}

/-- Decoding goes through all blocks for a path that climbs out of its block. -/
lemma Sees.resolve?_of_leaves (h : chain.Sees scope view root others)
    (hleaves : view.Leaves path.anchor) : chain.resolve? scope path = chain.searchBlocks? path := by
  cases hanchor : path.anchor with
  | absolute => rw [hanchor] at hleaves; cases hleaves
  | relative up =>
    rw [hanchor] at hleaves
    have hlength := (h.opens.outwards h.opens.lt).length_eq
    have hnone : (chain.arena.enclosing scope).drop up = [] :=
      List.drop_eq_nil_of_le (hlength ▸ hleaves)
    simp only [ScopeChain.resolve?, hanchor, hnone, List.findSome?_nil]

/-- A field of the present block is found first. -/
lemma Sees.searchBlocks?_of_own (h : chain.Sees scope view root others) {t : FieldType}
    (ht : view.own? path = some t) :
    ∃ f, chain.searchBlocks? path = chain.arena.descend? f path.tail ∧ chain.arena.Fits f t := by
  obtain ⟨before, hbefore, hmirrors⟩ := h.opens.getLast?
  rw [View.own?, hbefore, Option.bind_some] at ht
  obtain ⟨f, hf, hfits⟩ := hmirrors.found ht
  refine ⟨f, ?_, hfits⟩
  rw [searchBlocks?_eq, h.registered, List.findSome?_cons, hf]
  rfl

/-- Where the present block has no field of the name, the blocks before are searched. -/
lemma Sees.searchBlocks?_of_own_eq_none (h : chain.Sees scope view root others) {t : FieldType}
    (hown : view.own? path = none)
    (ht : (view.earlier.findSome? fun block => block.2.member? path.head) = some t) :
    ∃ (a : Arena) (f : Field), chain.searchBlocks? path = a.descend? f path.tail ∧ a.Fits f t := by
  obtain ⟨before, hbefore, hmirrors⟩ := h.opens.getLast?
  rw [View.own?, hbefore, Option.bind_some] at hown
  obtain ⟨a, f, hf, hfits⟩ := findSome?_of_completed h.completed ht
  refine ⟨a, f, ?_, hfits⟩
  rw [searchBlocks?_eq, h.registered, List.findSome?_cons, hmirrors.missing hown]
  simp only [Option.map_none, hf, Option.bind_some]

end ScopeChain

/-! ## Lookups -/

namespace Lookup

variable {lookup : Lookup} {limit : ℕ}

/-- What the check has found is found, unless the block has a field of the name itself. -/
lemma Placed.found_of_own_eq_none (h : lookup.Placed) (hclimbs : lookup.view.ClimbsOut lookup.path)
    (hown : lookup.view.own? lookup.path = none) : lookup.Found limit := by
  obtain ⟨⟨root, hinside⟩, t, ht, haccepts⟩ := h
  obtain ⟨others, hsees⟩ := hinside.sees
  obtain ⟨hleaves, hplain, -⟩ := hclimbs
  obtain ⟨u, hhead, htail⟩ := Option.bind_eq_some_iff.mp ht
  have henters := hplain u hhead
  rw [View.head?_of_leaves hleaves] at hhead
  obtain ⟨a, g, hresolve, hgfits⟩ := hsees.searchBlocks?_of_own_eq_none hown hhead
  obtain ⟨f, hf, hfits⟩ := hgfits.descend? henters htail
  rw [← hsees.resolve?_of_leaves hleaves] at hresolve
  exact found_of_fits limit (hresolve.trans hf) hfits ht haccepts

/-- Otherwise that field decides. -/
lemma Placed.found_iff_of_own (h : lookup.Placed) (hleaves : lookup.view.Leaves lookup.path.anchor)
    {t : FieldType} (hown : lookup.view.own? lookup.path = some t)
    (henters : t.entersVariant lookup.path.tail = false) :
    lookup.Found limit ↔ t.descend? lookup.path.tail = lookup.view.resolve? lookup.path := by
  obtain ⟨⟨root, hinside⟩, u, hu, haccepts⟩ := h
  obtain ⟨others, hsees⟩ := hinside.sees
  obtain ⟨g, hresolve, hgfits⟩ := hsees.searchBlocks?_of_own hown
  rw [← hsees.resolve?_of_leaves hleaves] at hresolve
  constructor
  · intro hfound
    obtain ⟨f, hf, htype⟩ := hfound.resolved
    rw [← hgfits.map_type_descend? henters, ← hresolve, hf, htype, Option.map_some]
  · intro hsame
    rw [hu] at hsame
    obtain ⟨f, hf, hfits⟩ := hgfits.descend? henters hsame
    exact found_of_fits limit (hresolve.trans hf) hfits hu haccepts

/-- **When a path that climbs out of its block is found.**  It leads to what the check has found unless a
field of its own block overtakes that. -/
theorem Placed.found_iff_of_climbs (h : lookup.Placed)
    (hclimbs : lookup.view.ClimbsOut lookup.path) :
    lookup.Found limit ↔ ¬lookup.view.Overtakes lookup.path := by
  obtain ⟨hleaves, -, howns⟩ := id hclimbs
  cases hown : lookup.view.own? lookup.path with
  | none =>
    refine iff_of_true (h.found_of_own_eq_none hclimbs hown) ?_
    rintro ⟨t, ht, -⟩
    exact absurd (hown ▸ ht) (Option.not_mem_none t)
  | some t =>
    rw [h.found_iff_of_own hleaves hown (howns t hown)]
    simp only [View.Overtakes, hown, Option.mem_def, Option.some.injEq, exists_eq_left', not_not]

end Lookup

end CommonTrace
