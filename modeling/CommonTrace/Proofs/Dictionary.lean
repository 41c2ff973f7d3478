import CommonTrace.Dictionary
import Mathlib.Algebra.Ring.Nat
import Mathlib.Tactic.Lemma

/-!
# What dictionaries hold

Every value that is found in a dictionary stands in it, and nothing comes to stand in it but what is
inserted.

Insertion keeps the keys in order (`Dictionary.Sorted`).  So two values can be inserted in either order
(`Dictionary.insert_comm`), dictionaries with the same keys have them in the same order
(`Dictionary.Sorted.keys_eq`), an insertion adds an entry or replaces one and leaves the others alone
(`Dictionary.perm_insert`, `Dictionary.Sorted.exists_perm`), and it changes a sum over all values by what it
changes under its key (`Dictionary.Sorted.total_insert`).
-/

namespace CommonTrace.Dictionary

variable {κ ν : Type}

lemma exists_of_only? {d : Dictionary κ ν} {value : ν} (h : d.only? = some value) :
    ∃ key, (key, value) ∈ d.entries := by
  unfold only? at h
  split at h
  · rename_i key value' hentries
    cases h
    exact ⟨key, hentries ▸ List.mem_singleton_self _⟩
  · cases h

variable [Ord κ]

lemma exists_of_get? {d : Dictionary κ ν} {key : κ} {value : ν} (h : d.get? key = some value) :
    ∃ key', (key', value) ∈ d.entries := by
  obtain ⟨⟨key', value'⟩, hfind, rfl⟩ := Option.map_eq_some_iff.mp h
  exact ⟨key', List.mem_of_find?_eq_some hfind⟩

lemma mem_insertEntry {entries : List (κ × ν)} {key : κ} {value : ν} {entry : κ × ν}
    (h : entry ∈ insertEntry key value entries) : entry = (key, value) ∨ entry ∈ entries := by
  induction entries with
  | nil => exact .inl (List.mem_singleton.mp h)
  | cons first rest ih =>
    obtain ⟨other, old⟩ := first
    rw [insertEntry] at h
    split at h
    · exact List.mem_cons.mp h
    · rcases List.mem_cons.mp h with h | h
      · exact .inl h
      · exact .inr (List.mem_cons_of_mem _ h)
    · rcases List.mem_cons.mp h with h | h
      · exact .inr (h ▸ List.mem_cons_self)
      · exact (ih h).imp_right (List.mem_cons_of_mem _)

/-- An entry that is there after an insertion is the one inserted, or it was there before. -/
lemma mem_insert {d : Dictionary κ ν} {key : κ} {value : ν} {entry : κ × ν}
    (h : entry ∈ (d.insert key value).entries) : entry = (key, value) ∨ entry ∈ d.entries :=
  mem_insertEntry h

lemma insertEntry_ne_nil (key : κ) (value : ν) (entries : List (κ × ν)) :
    insertEntry key value entries ≠ [] := by
  cases entries with
  | nil => exact List.cons_ne_nil _ _
  | cons first rest =>
    obtain ⟨other, old⟩ := first
    rw [insertEntry]
    split <;> exact List.cons_ne_nil _ _

lemma insert_ne_nil (d : Dictionary κ ν) (key : κ) (value : ν) :
    (d.insert key value).entries ≠ [] :=
  insertEntry_ne_nil key value d.entries

/-! ## What is found after an insertion -/

section Lookup

lemma get?_empty (key : κ) : (empty : Dictionary κ ν).get? key = none := rfl

private lemma get?_cons (other : κ) (old : ν) (rest : List (κ × ν)) (key : κ) :
    (⟨(other, old) :: rest⟩ : Dictionary κ ν).get? key =
      if compare key other = .eq then some old else (⟨rest⟩ : Dictionary κ ν).get? key := by
  simp only [get?, List.find?_cons]
  by_cases h : compare key other = .eq <;> simp [h]

variable [Std.LawfulEqOrd κ]

/-- The keys of a dictionary are those under which something is found. -/
lemma mem_keys_iff {d : Dictionary κ ν} {key : κ} : key ∈ d.keys ↔ (d.get? key).isSome := by
  obtain ⟨entries⟩ := d
  induction entries with
  | nil => simp [keys, get?]
  | cons first rest ih =>
    obtain ⟨other, old⟩ := first
    rw [get?_cons]
    simp only [keys, List.map_cons, List.mem_cons, Std.LawfulEqOrd.compare_eq_iff_eq] at ih ⊢
    by_cases h : key = other <;> simp [h, ih]

lemma mem_of_get? {d : Dictionary κ ν} {key : κ} {value : ν} (h : d.get? key = some value) :
    (key, value) ∈ d.entries := by
  obtain ⟨⟨key', value'⟩, hfind, rfl⟩ := Option.map_eq_some_iff.mp h
  have heq := List.find?_some hfind
  obtain rfl : key = key' := Std.LawfulEqOrd.eq_of_compare (of_decide_eq_true heq)
  exact List.mem_of_find?_eq_some hfind

lemma get?_insert [DecidableEq κ] (d : Dictionary κ ν) (key : κ) (value : ν) (key' : κ) :
    (d.insert key value).get? key' = if key' = key then some value else d.get? key' := by
  obtain ⟨entries⟩ := d
  have hself (value : ν) (rest : List (κ × ν)) :
      (⟨(key, value) :: rest⟩ : Dictionary κ ν).get? key' =
        if key' = key then some value else (⟨rest⟩ : Dictionary κ ν).get? key' := by
    simp only [get?_cons, Std.LawfulEqOrd.compare_eq_iff_eq]
  induction entries with
  | nil => exact hself value []
  | cons first rest ih =>
    obtain ⟨other, old⟩ := first
    rw [insert] at ih ⊢
    rw [insertEntry]
    split
    · exact hself value _
    · rename_i heq
      obtain rfl := Std.LawfulEqOrd.eq_of_compare heq
      simp only [get?_cons, Std.LawfulEqOrd.compare_eq_iff_eq]
      by_cases h : key' = key <;> simp [h]
    · rename_i hgt
      have hne : key ≠ other := by
        rintro rfl
        simp at hgt
      rw [get?_cons, get?_cons, ih]
      simp only [Std.LawfulEqOrd.compare_eq_iff_eq]
      by_cases h : key' = other
      · subst h
        simp [Ne.symm hne]
      · simp [h]

end Lookup

/-! ## Insertions in another order -/

section Reorder

variable [Std.TransOrd κ]

private lemma insertEntry_insertEntry_of_lt {key key' : κ} (h : compare key key' = .lt)
    (value value' : ν) (entries : List (κ × ν)) :
    insertEntry key value (insertEntry key' value' entries) =
      insertEntry key' value' (insertEntry key value entries) := by
  have hgt : compare key' key = .gt := Std.OrientedCmp.gt_iff_lt.mpr h
  induction entries with
  | nil => simp [insertEntry, h, hgt]
  | cons first rest ih =>
    obtain ⟨other, old⟩ := first
    cases hother : compare key' other with
    | lt =>
      have hlt : compare key other = .lt := Std.TransCmp.lt_trans h hother
      simp [insertEntry, h, hgt, hother, hlt]
    | eq =>
      have hlt : compare key other = .lt := Std.TransCmp.lt_of_lt_of_eq h hother
      simp [insertEntry, h, hgt, hother, hlt]
    | gt =>
      cases hfirst : compare key other with
      | lt => simp [insertEntry, hgt, hother, hfirst]
      | eq => simp [insertEntry, hgt, hother, hfirst]
      | gt => simp [insertEntry, hother, hfirst, ih]

/-- Values may be put under different keys in any order. -/
lemma insert_comm [Std.LawfulEqOrd κ] (d : Dictionary κ ν) {key key' : κ} (h : key ≠ key')
    (value value' : ν) :
    (d.insert key value).insert key' value' = (d.insert key' value').insert key value := by
  unfold insert
  cases hcompare : compare key key' with
  | lt => rw [insertEntry_insertEntry_of_lt hcompare]
  | eq => exact absurd (Std.LawfulEqOrd.eq_of_compare hcompare) h
  | gt => rw [insertEntry_insertEntry_of_lt (Std.OrientedCmp.gt_iff_lt.mp hcompare)]

/-- What is put under a key takes the place of what was put there before. -/
lemma insert_insert (d : Dictionary κ ν) (key : κ) (value value' : ν) :
    (d.insert key value).insert key value' = d.insert key value' := by
  obtain ⟨entries⟩ := d
  unfold insert
  congr 1
  induction entries with
  | nil => simp [insertEntry]
  | cons first rest ih =>
    obtain ⟨other, old⟩ := first
    cases hother : compare key other <;> simp [insertEntry, hother, ih]

omit [Std.TransOrd κ] in
lemma size_le_size_insert (d : Dictionary κ ν) (key : κ) (value : ν) :
    d.size ≤ (d.insert key value).size := by
  obtain ⟨entries⟩ := d
  unfold insert size
  dsimp only
  induction entries with
  | nil => exact Nat.zero_le _
  | cons first rest ih =>
    obtain ⟨other, old⟩ := first
    cases hother : compare key other <;> simp [insertEntry, hother, ih]

end Reorder

/-! ## Keys in order -/

/-- The keys are in increasing order. -/
def Sorted (d : Dictionary κ ν) : Prop :=
  d.entries.Pairwise fun a b => compare a.1 b.1 = .lt

namespace Sorted

lemma empty : (empty : Dictionary κ ν).Sorted :=
  List.Pairwise.nil

variable [Std.TransOrd κ] [Std.LawfulEqOrd κ] {d d' : Dictionary κ ν} {key : κ} {old : ν}

lemma insert (h : d.Sorted) (key : κ) (value : ν) : (d.insert key value).Sorted := by
  obtain ⟨entries⟩ := d
  unfold Sorted Dictionary.insert at *
  induction entries with
  | nil => exact List.pairwise_singleton _ _
  | cons first rest ih =>
    obtain ⟨other, old⟩ := first
    obtain ⟨hfirst, hrest⟩ := List.pairwise_cons.mp h
    rw [insertEntry]
    split
    · rename_i hlt
      refine List.pairwise_cons.mpr ⟨fun entry hentry => ?_, h⟩
      rcases List.mem_cons.mp hentry with rfl | hentry
      · exact hlt
      · exact Std.TransCmp.lt_trans hlt (hfirst entry hentry)
    · rename_i heq
      obtain rfl := Std.LawfulEqOrd.eq_of_compare heq
      exact List.pairwise_cons.mpr ⟨hfirst, hrest⟩
    · rename_i hgt
      refine List.pairwise_cons.mpr ⟨fun entry hentry => ?_, ih hrest⟩
      rcases mem_insertEntry hentry with rfl | hentry
      · exact Std.OrientedCmp.gt_iff_lt.mp hgt
      · exact hfirst entry hentry

omit [Std.TransOrd κ] [Std.LawfulEqOrd κ] in
lemma pairwise_keys (h : d.Sorted) : d.keys.Pairwise (compare · · = .lt) :=
  List.pairwise_map.mpr h

omit [Std.LawfulEqOrd κ] in
lemma nodup_keys (h : d.Sorted) : d.keys.Nodup := by
  refine h.pairwise_keys.imp fun hlt heq => ?_
  subst heq
  simp at hlt

/-- Two sorted dictionaries with the same keys have them in the same order. -/
lemma keys_eq (h : d.Sorted) (h' : d'.Sorted)
    (hsame : ∀ key, (d.get? key).isSome = (d'.get? key).isSome) : d.keys = d'.keys := by
  refine List.Perm.eq_of_pairwise ?_ h.pairwise_keys h'.pairwise_keys ?_
  · intro a b _ _ hab hba
    have hself := Std.TransCmp.lt_trans hab hba
    simp at hself
  · refine (List.perm_ext_iff_of_nodup h.nodup_keys h'.nodup_keys).mpr fun key => ?_
    rw [mem_keys_iff, mem_keys_iff, hsame]

/-- Where a key has a value already, no key is added. -/
lemma keys_insert [DecidableEq κ] (h : d.Sorted) (hkey : d.get? key = some old) (value : ν) :
    (d.insert key value).keys = d.keys := by
  refine (h.insert key value).keys_eq h fun key' => ?_
  rw [get?_insert]
  split
  · rename_i heq
    rw [heq, hkey]
    rfl
  · rfl

end Sorted

/-! ## Entries up to their order -/

section Entries

variable {d : Dictionary κ ν} {key : κ} {old : ν}

/-- Under a new key, an entry is added. -/
lemma perm_insert (h : d.get? key = none) (value : ν) :
    (d.insert key value).entries.Perm ((key, value) :: d.entries) := by
  obtain ⟨entries⟩ := d
  unfold insert
  dsimp only
  induction entries with
  | nil => exact .refl _
  | cons first rest ih =>
    obtain ⟨other, old⟩ := first
    rw [get?_cons] at h
    rw [insertEntry]
    split
    · exact .refl _
    · rename_i heq
      rw [if_pos heq] at h
      cases h
    · rename_i hgt
      rw [if_neg (by rw [hgt]; nofun)] at h
      exact ((ih h).cons _).trans (.swap _ _ _)

/-- Under a key that has a value, that value is replaced, and the other entries stay. -/
lemma Sorted.exists_perm [Std.TransOrd κ] [Std.LawfulEqOrd κ] (h : d.Sorted) (hkey : d.get? key = some old) :
    ∃ rest, d.entries.Perm ((key, old) :: rest) ∧
      ∀ value, (d.insert key value).entries.Perm ((key, value) :: rest) := by
  obtain ⟨entries⟩ := d
  unfold Sorted at h
  unfold Dictionary.insert
  dsimp only at *
  induction entries with
  | nil => cases hkey
  | cons first rest ih =>
    obtain ⟨other, first⟩ := first
    obtain ⟨hfirst, hrest⟩ := List.pairwise_cons.mp h
    rw [get?_cons] at hkey
    simp only [insertEntry]
    cases hcompare : compare key other with
    | lt =>
      rw [if_neg (by rw [hcompare]; nofun)] at hkey
      have hself := Std.TransCmp.lt_trans hcompare (hfirst _ (mem_of_get? hkey))
      simp at hself
    | eq =>
      rw [if_pos hcompare] at hkey
      cases hkey
      obtain rfl := Std.LawfulEqOrd.eq_of_compare hcompare
      exact ⟨rest, .refl _, fun value => .refl _⟩
    | gt =>
      rw [if_neg (by rw [hcompare]; nofun)] at hkey
      obtain ⟨others, hbefore, hafter⟩ := ih hrest hkey
      refine ⟨(other, first) :: others, (hbefore.cons _).trans (.swap _ _ _), fun value => ?_⟩
      exact ((hafter value).cons _).trans (.swap _ _ _)

end Entries

/-! ## Sums over all values -/

/-- The sum of a measure over all values. -/
def total (measure : ν → Nat) (d : Dictionary κ ν) : Nat :=
  (d.values.map measure).sum

variable [Std.TransOrd κ] [Std.LawfulEqOrd κ] {d : Dictionary κ ν}

/-- What an insertion changes is the value under the key. -/
lemma Sorted.total_insert (h : d.Sorted) (measure : ν → Nat) (key : κ) (value : ν) :
    (d.insert key value).total measure + ((d.get? key).map measure).getD 0 =
      d.total measure + measure value := by
  obtain ⟨entries⟩ := d
  unfold Sorted total values Dictionary.insert at *
  induction entries with
  | nil => simp [insertEntry, get?]
  | cons first rest ih =>
    obtain ⟨other, old⟩ := first
    obtain ⟨hfirst, hrest⟩ := List.pairwise_cons.mp h
    rw [insertEntry, get?_cons]
    split
    · rename_i hlt
      have hnone : (⟨rest⟩ : Dictionary κ ν).get? key = none := by
        refine Option.eq_none_iff_forall_ne_some.mpr fun value' hvalue' => ?_
        have hself := Std.TransCmp.lt_trans hlt (hfirst _ (mem_of_get? hvalue'))
        simp at hself
      simp only [hlt, reduceCtorEq, if_false, hnone, Option.map_none, Option.getD_none, List.map_cons,
        List.sum_cons]
      omega
    · rename_i heq
      simp only [heq, if_true, Option.map_some, Option.getD_some, List.map_cons, List.sum_cons]
      omega
    · rename_i hgt
      simp only [hgt, reduceCtorEq, if_false, List.map_cons, List.sum_cons]
      have hrest := ih hrest
      dsimp only at hrest
      omega

end CommonTrace.Dictionary
