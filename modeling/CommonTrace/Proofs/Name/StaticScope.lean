import CommonTrace.Name.StaticScope
import Mathlib.Data.Nat.Notation
import Mathlib.Tactic.Lemma

/-!
# Splitting absolute paths

An absolute path is written as the path of its block with something behind it, joined by a dot.  No block
has a path that another block's path begins with, so a text is split in one way at most, whichever of the
two ways of splitting finds the block first.

The two ways differ only in what they refuse.  Descending the tree, `StaticScope.walk?` wants something to
stand behind the block, whatever block it is.  `StaticScope.splitAbsolute?` tries the frequent blocks first,
and for these it is content with the dot: `event.fields.` is split into the block and nothing.

* `StaticScope.walk?_eq_some_iff` and `StaticScope.splitAbsolute?_eq_some_iff`: which texts are split, and
  into what.
* `StaticScope.splitAbsolute?_eq_walk?_iff`: on which texts both ways agree.
-/

namespace CommonTrace

/-! ## Joining and splitting -/

section Joining

variable {α : Type} {sep : List α} {xs ys : List (List α)}

lemma intercalate_append (hxs : xs ≠ []) (hys : ys ≠ []) :
    sep.intercalate (xs ++ ys) = sep.intercalate xs ++ sep ++ sep.intercalate ys := by
  induction xs with
  | nil => exact absurd rfl hxs
  | cons x xs ih =>
    cases xs with
    | nil =>
      obtain ⟨y, ys, rfl⟩ := List.exists_cons_of_ne_nil hys
      simp [List.intercalate_cons_cons]
    | cons x' xs =>
      have hrest := ih (List.cons_ne_nil x' xs)
      simp only [List.cons_append, List.intercalate_cons_cons, List.append_assoc] at hrest ⊢
      rw [hrest]

end Joining

/-! ## Blocks -/

namespace StaticScope

variable {scope block : StaticScope} {text inside : List Char}

/-- The names on the way down to a scope, as they stand in a text. -/
def spelled (scope : StaticScope) : List (List Char) :=
  scope.segments.map String.toList

lemma toList_path (scope : StaticScope) : scope.path.toList = ['.'].intercalate scope.spelled :=
  String.toList_intercalate

lemma splitOn_path (hblock : block ∈ blocks) : block.path.toList.splitOn '.' = block.spelled := by
  have hall : ∀ block ∈ blocks, block.path.toList.splitOn '.' = block.spelled := by decide +kernel
  exact hall block hblock

lemma mem_blocks_of_frequent (h : block ∈ frequentBlocks) : block ∈ blocks := by
  have hsubset : frequentBlocks ⊆ blocks := by decide
  exact hsubset h

/-- The path of one block does not begin with that of another. -/
lemma eq_of_path_append {x y : List Char} (hscope : scope ∈ blocks) (hblock : block ∈ blocks)
    (h : scope.path.toList ++ '.' :: x = block.path.toList ++ '.' :: y) : scope = block ∧ x = y := by
  have hfree : ∀ scope ∈ blocks, ∀ block ∈ blocks,
      scope.path.toList ++ ['.'] <+: block.path.toList ++ ['.'] → scope = block := by decide +kernel
  have hleft : scope.path.toList ++ ['.'] <+: scope.path.toList ++ '.' :: x := ⟨x, by simp⟩
  have hright : block.path.toList ++ ['.'] <+: scope.path.toList ++ '.' :: x := ⟨y, by simp [h]⟩
  obtain rfl : scope = block := by
    rcases List.prefix_or_prefix_of_prefix hleft hright with hprefix | hprefix
    · exact hfree _ hscope _ hblock hprefix
    · exact (hfree _ hblock _ hscope hprefix).symm
  exact ⟨rfl, List.cons_inj_right _ |>.mp (List.append_cancel_left h)⟩

/-! ## Descending the tree -/

lemma of_child? {child : StaticScope} {name : String} (h : scope.child? name = some child) :
    child.segments = scope.segments ++ [name] := by
  have hparent := (List.mem_filter.mp (List.mem_of_find?_eq_some h)).2
  have hname : child.name = name := by simpa using List.find?_some h
  rw [segments_of_parent? (of_decide_eq_true hparent), hname]

/-- **What descending takes off** are the names on the way down to the block. -/
lemma of_descend? {names : List (List Char)} (h : scope.descend? names = some (block, inside)) :
    block ∈ blocks ∧ inside ≠ [] ∧
      ∃ rest, scope.spelled ++ names = block.spelled ++ rest ∧ inside = ['.'].intercalate rest := by
  induction names generalizing scope with
  | nil => cases h
  | cons name names ih =>
    rw [descend?] at h
    split at h
    · cases h
    · rename_i child hchild
      have hspelled : scope.spelled ++ name :: names = child.spelled ++ names := by
        simp [spelled, of_child? hchild]
      rw [hspelled]
      split at h
      · rename_i hblock
        dsimp only at h
        split at h
        · cases h
        · rename_i hinside
          cases h
          exact ⟨by simpa [isBlock] using hblock, by simpa using hinside, names, rfl, rfl⟩
      · exact ih h

/-- Descending from the root by the names of a block leads to the block. -/
lemma descend?_spelled (hblock : block ∈ blocks) (rest : List (List Char)) :
    root.descend? (block.spelled ++ rest) =
      if (['.'].intercalate rest).isEmpty then none else some (block, ['.'].intercalate rest) := by
  simp only [blocks, List.mem_cons, List.not_mem_nil, or_false] at hblock
  rcases hblock with rfl | rfl | rfl | rfl | rfl | rfl <;> rfl

/-- **Descending splits a text behind the path of a block**, if something stands there. -/
lemma walk?_eq_some_iff : walk? text = some (block, inside) ↔
    block ∈ blocks ∧ inside ≠ [] ∧ text = block.path.toList ++ '.' :: inside := by
  constructor
  · intro h
    obtain ⟨hblock, hinside, rest, hnames, rfl⟩ := of_descend? h
    refine ⟨hblock, hinside, ?_⟩
    have hrest : rest ≠ [] := by
      rintro rfl
      exact hinside rfl
    have hspelled : block.spelled ≠ [] := by
      have hall : ∀ block ∈ blocks, block.spelled ≠ [] := by decide
      exact hall block hblock
    calc text = ['.'].intercalate (text.splitOn '.') := (List.intercalate_splitOn '.').symm
      _ = ['.'].intercalate (block.spelled ++ rest) := by rw [← hnames]; rfl
      _ = block.path.toList ++ '.' :: ['.'].intercalate rest := by
        rw [intercalate_append hspelled hrest, toList_path, List.append_assoc, List.singleton_append]
  · rintro ⟨hblock, hinside, rfl⟩
    rw [walk?, List.splitOn_append_cons_self, splitOn_path hblock, descend?_spelled hblock,
      List.intercalate_splitOn, if_neg (by simpa using hinside)]

/-! ## Trying the frequent blocks first -/

lemma inside?_eq_some_iff :
    scope.inside? text = some inside ↔ text = scope.path.toList ++ '.' :: inside := by
  constructor
  · intro h
    unfold inside? at h
    dsimp only at h
    split at h
    · rename_i hprefix
      obtain ⟨rest, rfl⟩ := List.isPrefixOf_iff_prefix.mp hprefix
      simp only [List.drop_left, Option.some.injEq] at h
      rw [h, List.append_assoc, List.singleton_append]
    · cases h
  · rintro rfl
    have hopening : scope.path.toList ++ '.' :: inside = scope.path.toList ++ ['.'] ++ inside := by simp
    rw [inside?, hopening, if_pos (List.isPrefixOf_iff_prefix.mpr (List.prefix_append _ _)),
      List.drop_left]

lemma of_splitAbsolute? (h : splitAbsolute? text = some (block, inside)) :
    block ∈ blocks ∧ (inside ≠ [] ∨ block ∈ frequentBlocks) ∧
      text = block.path.toList ++ '.' :: inside := by
  unfold splitAbsolute? at h
  split at h
  · rename_i found hfound
    cases h
    obtain ⟨scope, hfrequent, hinside⟩ := List.exists_of_findSome?_eq_some hfound
    obtain ⟨_, hinside, heq⟩ := Option.map_eq_some_iff.mp hinside
    cases heq
    exact ⟨mem_blocks_of_frequent hfrequent, Or.inr hfrequent, inside?_eq_some_iff.mp hinside⟩
  · obtain ⟨hblock, hinside, htext⟩ := walk?_eq_some_iff.mp h
    exact ⟨hblock, Or.inl hinside, htext⟩

/-- Text behind the path of a block is not overlooked. -/
lemma splitAbsolute?_ne_none (hblock : block ∈ blocks) (h : inside ≠ [] ∨ block ∈ frequentBlocks) :
    splitAbsolute? (block.path.toList ++ '.' :: inside) ≠ none := by
  unfold splitAbsolute?
  intro hnone
  split at hnone
  · cases hnone
  · rename_i hmissed
    rcases h with hinside | hfrequent
    · rw [walk?_eq_some_iff.mpr ⟨hblock, hinside, rfl⟩] at hnone
      cases hnone
    · have hnot := List.findSome?_eq_none_iff.mp hmissed block hfrequent
      rw [inside?_eq_some_iff.mpr rfl] at hnot
      cases hnot

/-- **A text is split behind the path of a block**, if something stands there or the block is a frequent
one. -/
lemma splitAbsolute?_eq_some_iff : splitAbsolute? text = some (block, inside) ↔
    block ∈ blocks ∧ (inside ≠ [] ∨ block ∈ frequentBlocks) ∧
      text = block.path.toList ++ '.' :: inside := by
  refine ⟨of_splitAbsolute?, ?_⟩
  rintro ⟨hblock, h, rfl⟩
  obtain ⟨⟨scope, rest⟩, hsplit⟩ := Option.ne_none_iff_exists'.mp (splitAbsolute?_ne_none hblock h)
  obtain ⟨hscope, -, heq⟩ := of_splitAbsolute? hsplit
  obtain ⟨rfl, rfl⟩ := eq_of_path_append hblock hscope heq
  exact hsplit

/-- **Trying the frequent blocks first changes nothing but for one text each**: the path of a frequent block
with a dot and nothing behind it, which is split there instead of being refused. -/
theorem splitAbsolute?_eq_walk?_iff (text : List Char) :
    (splitAbsolute? text = walk? text ↔ ∀ scope ∈ frequentBlocks, text ≠ scope.path.toList ++ ['.']) ∧
      ∀ scope ∈ frequentBlocks, splitAbsolute? (scope.path.toList ++ ['.']) = some (scope, []) ∧
        walk? (scope.path.toList ++ ['.']) = none := by
  have hsplit : ∀ scope ∈ frequentBlocks,
      splitAbsolute? (scope.path.toList ++ ['.']) = some (scope, []) := by
    intro scope hscope
    exact splitAbsolute?_eq_some_iff.mpr ⟨mem_blocks_of_frequent hscope, Or.inr hscope, rfl⟩
  have hwalk : ∀ scope ∈ frequentBlocks, walk? (scope.path.toList ++ ['.']) = none := by
    intro scope hscope
    refine Option.eq_none_iff_forall_ne_some.mpr fun ⟨block, inside⟩ h => ?_
    obtain ⟨hblock, hinside, heq⟩ := walk?_eq_some_iff.mp h
    obtain ⟨-, hempty⟩ := eq_of_path_append (mem_blocks_of_frequent hscope) hblock heq
    exact hinside hempty.symm
  refine ⟨⟨?_, ?_⟩, fun scope hscope => ⟨hsplit scope hscope, hwalk scope hscope⟩⟩
  · rintro hsame scope hscope rfl
    rw [hsplit scope hscope, hwalk scope hscope] at hsame
    cases hsame
  · intro hnot
    ext ⟨block, inside⟩
    rw [splitAbsolute?_eq_some_iff, walk?_eq_some_iff]
    constructor
    · rintro ⟨hblock, h, rfl⟩
      refine ⟨hblock, ?_, rfl⟩
      rintro rfl
      exact hnot block (h.resolve_left (not_not_intro rfl)) rfl
    · rintro ⟨hblock, hinside, htext⟩
      exact ⟨hblock, Or.inl hinside, htext⟩

/-- The two ways of splitting do not agree on every text. -/
theorem not_forall_splitAbsolute?_eq_walk? : ¬∀ text, splitAbsolute? text = walk? text := by
  intro h
  have hfields := h "event.fields.".toList
  revert hfields
  decide +kernel

end StaticScope

end CommonTrace
