import CommonTrace.Proofs.Schema.Comparison

/-!
# How much is still to be built

Every name is used up when its type is built, and every body that is built adds names.  What is still to be
built is measured in nodes (`Node.weight`): in a scope by the weights of the types that nothing has referred
to yet (`TypeTable.waiting`), and from a scope on by the sum of these over the scopes around it
(`TypeTable.stock`).

The names of a body do not weigh more than its definitions do (`weight_add_others_le`).  So opening a scope
for a body adds to the stock less than the weight of the body, and a type that is about to be built is at
least as heavy as what its building adds to the stock.
-/

namespace CommonTrace

open Tsdl

/-! ## Weights of trees -/

namespace Tsdl.Node

variable {node child : Node} {nodes : List Node} {entries : List (String × TypeSource)}

lemma weight_eq (node : Node) :
    node.weight = 1 + max 1 node.declaratorCount * weightOfAll node.children := by
  obtain ⟨kind, text, children⟩ := node
  rw [weight]

lemma weightOfAll_lt (node : Node) : weightOfAll node.children < node.weight := by
  have hle := Nat.mul_le_mul_right (weightOfAll node.children) (Nat.le_max_left 1 node.declaratorCount)
  rw [weight_eq]
  omega

lemma weight_pos (node : Node) : 0 < node.weight :=
  Nat.zero_lt_of_lt (weightOfAll_lt node)

lemma weight_le_of_mem (h : child ∈ nodes) : child.weight ≤ weightOfAll nodes := by
  induction nodes with
  | nil => cases h
  | cons node rest ih =>
    rw [weightOfAll]
    rcases List.mem_cons.mp h with rfl | h
    · exact Nat.le_add_right _ _
    · exact Nat.le_add_left_of_le (ih h)

lemma weight_lt_of_mem (h : child ∈ node.children) : child.weight < node.weight :=
  Nat.lt_of_le_of_lt (weight_le_of_mem h) (weightOfAll_lt node)

lemma weight_lt_of_child? {kind : NodeKind} (h : node.child? kind = some child) :
    child.weight < node.weight :=
  weight_lt_of_mem (List.mem_of_find?_eq_some h)

/-- The weight of the types of some names. -/
def weightOfEntries (entries : List (String × TypeSource)) : ℕ :=
  (entries.map fun entry => entry.2.specifiers.weight).sum

lemma weightOfEntries_append (entries entries' : List (String × TypeSource)) :
    weightOfEntries (entries ++ entries') = weightOfEntries entries + weightOfEntries entries' := by
  rw [weightOfEntries, List.map_append, List.sum_append]
  rfl

/-- A type that is declared under several names weighs as much each time. -/
lemma weightOfEntries_of_declarators {specifiers : Node} {declarators : List Node}
    (h : List.Forall₂ (fun declarator entry => TypeM.declaratorName declarator = pure entry.1 ∧
      entry.2 = ⟨specifiers, some declarator⟩) declarators entries) :
    weightOfEntries entries = declarators.length * specifiers.weight := by
  induction h with
  | nil => simp [weightOfEntries]
  | @cons declarator entry declarators entries hfirst _ ih =>
    rw [weightOfEntries, List.map_cons, List.sum_cons, hfirst.2, List.length_cons, Nat.succ_mul, ← ih,
      Nat.add_comm]
    rfl

/-- The types of the names that a node declares weigh less than the node. -/
lemma Declares.weight_lt (h : node.Declares entries) : weightOfEntries entries < node.weight := by
  cases h with
  | «alias» _ htarget _ hspecifiers _ =>
    have htarget := weight_lt_of_child? htarget
    have hspecifiers := weight_lt_of_child? hspecifiers
    simp only [weightOfEntries, List.map_cons, List.map_nil, List.sum_cons, List.sum_nil]
    omega
  | typedef _ hspecifiers hdeclarators hentries =>
    rename_i declarators _
    have hcount : node.declaratorCount = (declarators.childrenOf .typeDeclarator).length := by
      rw [declaratorCount, hdeclarators]
    rw [weightOfEntries_of_declarators hentries, ← hcount, weight_eq node,
      Nat.lt_one_add_iff]
    exact Nat.mul_le_mul (Nat.le_max_right _ _)
      (weight_le_of_mem (List.mem_of_find?_eq_some hspecifiers))
  | @declaration specifiers _ hspecifiers =>
    have hspecifiers := weight_lt_of_child? hspecifiers
    cases specifiers.children.head?.bind TypeM.compoundName? with
    | none => exact weight_pos node
    | some name =>
      simp only [weightOfEntries, Option.toList_some, List.map_cons, List.map_nil, List.sum_cons,
        List.sum_nil]
      omega
  | other _ => exact weight_pos node

/-- What some nodes declare weighs no more than the definitions among them. -/
lemma weight_add_others_le {declared : List (List (String × TypeSource))}
    (h : List.Forall₂ Declares nodes declared) :
    weightOfEntries declared.flatten + weightOfAll (others nodes) ≤ weightOfAll nodes := by
  induction h with
  | nil => exact Nat.le_refl _
  | @cons node entries rest declared hfirst _ ih =>
    rw [List.flatten_cons, weightOfEntries_append, others, List.filter_cons, weightOfAll]
    cases hkind : node.kind.isDefinition with
    | true =>
      have hlt := hfirst.weight_lt
      rw [if_neg (by decide)]
      rw [others] at ih
      omega
    | false =>
      rw [hfirst.eq_nil hkind, if_pos (by decide), weightOfAll]
      rw [others] at ih
      simp only [weightOfEntries, List.map_nil, List.sum_nil] at ih ⊢
      omega

/-- What is built in a body or a block weighs less than the node in it for which it is built. -/
lemma HasMember.weight_lt {body specifiers : Node} (h : body.HasMember specifiers) :
    specifiers.weight < weightOfAll (others body.children) := by
  cases h with
  | field hdeclaration hspecifiers =>
    rename_i declaration
    have hlt := weight_lt_of_child? hspecifiers
    obtain ⟨hmem, hkind⟩ := List.mem_filter.mp hdeclaration
    have hother : declaration ∈ others body.children :=
      List.mem_filter.mpr ⟨hmem, by rw [of_decide_eq_true hkind]; rfl⟩
    exact Nat.lt_of_lt_of_le hlt (weight_le_of_mem hother)
  | layout hnode ha hspecifiers =>
    rename_i node a
    obtain ⟨hmem, hkind⟩ := List.mem_filter.mp hnode
    have hother : node ∈ others body.children := by
      refine List.mem_filter.mpr ⟨hmem, ?_⟩
      cases hnode : node.kind <;> simp_all [NodeKind.isDefinition]
    obtain ⟨right, hright, hright_mem⟩ := Assignment.exists_right_of_type ha hspecifiers
    have hlt := Nat.lt_trans (weight_lt_of_mem hright_mem) (weight_lt_of_child? hright)
    exact Nat.lt_of_lt_of_le hlt (weight_le_of_mem hother)

end Tsdl.Node

/-! ## Weights in tables -/

/-- The weight of what a name stands for, if it is still to be built. -/
def TypeEntry.weight : TypeEntry → ℕ
  | .pending source => source.specifiers.weight
  | _ => 0

namespace TypeTable

/-- The weight of the types in a scope that nothing has referred to yet. -/
def waiting (table : TypeTable) (scope : TypeScopeId) : ℕ :=
  (table.scopes[scope]?).elim 0 (·.entries.total TypeEntry.weight)

/-- The weight of the types in a scope and in the scopes around it that nothing has referred to yet. -/
def stock (table : TypeTable) (scope : TypeScopeId) : ℕ :=
  ((table.around scope).map table.waiting).sum

variable {table table' bound : TypeTable} {scope scope' home parent : TypeScopeId} {name : String}
  {entry : TypeEntry} {entries : List (String × TypeSource)}

lemma waiting_setEntry (h : table.Ordered) (hscope : scope < table.scopes.size) (name : String)
    (entry : TypeEntry) :
    (table.setEntry scope name entry).waiting scope +
        ((table.lookup? scope name).map TypeEntry.weight).getD 0 =
      table.waiting scope + entry.weight := by
  have hsome : table.scopes[scope]? = some table.scopes[scope] := getElem?_pos table.scopes scope hscope
  have hinsert := (h.sorted scope _ hsome).total_insert TypeEntry.weight name entry
  unfold waiting lookup? setEntry
  rw [Array.getElem?_modify, if_pos rfl, hsome]
  exact hinsert

lemma waiting_setEntry_of_ne (hne : scope' ≠ scope) :
    (table.setEntry scope name entry).waiting scope' = table.waiting scope' := by
  unfold waiting setEntry
  rw [Array.getElem?_modify, if_neg hne.symm]

lemma waiting_opened (parent : TypeScopeId) :
    (table.opened parent).waiting scope = table.waiting scope := by
  unfold waiting opened
  rw [Array.getElem?_push]
  split
  · rename_i h
    subst h
    simp [Dictionary.total, Dictionary.empty, Dictionary.values]
  · rfl

lemma waiting_eq_zero (h : table.scopes.size ≤ scope) : table.waiting scope = 0 := by
  rw [waiting, getElem?_neg table.scopes scope (Nat.not_lt.mpr h)]
  rfl

lemma waiting_entered_of_ne (hne : scope' ≠ scope) :
    (table.entered scope entries).waiting scope' = table.waiting scope' := by
  induction entries generalizing table with
  | nil => rfl
  | cons entry rest ih => rw [entered_cons, ih, waiting_setEntry_of_ne hne]

/-- Names that are entered add no more than they weigh. -/
lemma waiting_entered_le (h : table.Ordered) (hscope : scope < table.scopes.size)
    (entries : List (String × TypeSource)) :
    (table.entered scope entries).waiting scope ≤
      table.waiting scope + Node.weightOfEntries entries := by
  induction entries generalizing table with
  | nil => exact Nat.le_refl _
  | cons entry rest ih =>
    have hset := waiting_setEntry h hscope entry.1 (.pending entry.2)
    have hrest := ih (h.setEntry scope entry.1 (.pending entry.2)) (by rwa [size_setEntry])
    rw [entered_cons]
    simp only [Node.weightOfEntries, List.map_cons, List.sum_cons, TypeEntry.weight] at hset hrest ⊢
    omega

lemma stock_eq (h : table.Ordered) (scope : TypeScopeId) :
    table.stock scope = table.waiting scope + ((table.parent? scope).map table.stock).getD 0 := by
  rw [stock, h.around_eq, List.map_cons, List.sum_cons]
  cases table.parent? scope <;> rfl

/-- From a scope further out on there is less to be built. -/
lemma stock_le_of_mem (h : table.Ordered) (hhome : home ∈ table.around scope) :
    table.stock home ≤ table.stock scope := by
  induction scope using Nat.strongRecOn with
  | _ scope ih =>
    rw [h.around_eq] at hhome
    rcases List.mem_cons.mp hhome with rfl | hhome
    · exact Nat.le_refl _
    · rw [stock_eq h scope]
      cases hparent : table.parent? scope with
      | none =>
        rw [hparent] at hhome
        cases hhome
      | some parent =>
        rw [hparent] at hhome
        exact Nat.le_add_left_of_le (ih parent (h.parent_lt scope parent hparent) hhome)

/-! ## Tables while types are built -/

/-- **Nothing more is to be built.**  Scopes may have been added to those of a table, but in its own scopes
nothing has been added to what is still to be built. -/
structure Within (bound table : TypeTable) : Prop where
  size_le : bound.scopes.size ≤ table.scopes.size
  parent_eq : ∀ scope < bound.scopes.size, table.parent? scope = bound.parent? scope
  waiting_le : ∀ scope < bound.scopes.size, table.waiting scope ≤ bound.waiting scope

namespace Within

lemma refl (table : TypeTable) : table.Within table :=
  ⟨Nat.le_refl _, fun _ _ => rfl, fun _ _ => Nat.le_refl _⟩

lemma trans (h : bound.Within table) (h' : table.Within table') : bound.Within table' where
  size_le := Nat.le_trans h.size_le h'.size_le
  parent_eq scope hscope :=
    (h'.parent_eq scope (Nat.lt_of_lt_of_le hscope h.size_le)).trans (h.parent_eq scope hscope)
  waiting_le scope hscope :=
    Nat.le_trans (h'.waiting_le scope (Nat.lt_of_lt_of_le hscope h.size_le)) (h.waiting_le scope hscope)

lemma note (table : TypeTable) (notes : Notes) : table.Within (table.note notes) :=
  ⟨Nat.le_refl _, fun _ _ => rfl, fun _ _ => Nat.le_refl _⟩

/-- An entry with which nothing is to be built. -/
lemma setEntry (h : table.Ordered) (scope : TypeScopeId) (name : String) (hentry : entry.weight = 0) :
    table.Within (table.setEntry scope name entry) where
  size_le := Nat.le_of_eq (size_setEntry table scope name entry).symm
  parent_eq scope' _ := parent?_setEntry table scope scope' name entry
  waiting_le scope' hscope' := by
    by_cases hsame : scope' = scope
    · subst hsame
      have hset := waiting_setEntry h hscope' name entry
      omega
    · exact Nat.le_of_eq (waiting_setEntry_of_ne hsame)

/-- Names that are entered into a new scope. -/
lemma entered (parent : TypeScopeId) (entries : List (String × TypeSource)) :
    table.Within ((table.opened parent).entered table.scopes.size entries) where
  size_le := by simp
  parent_eq scope hscope := by
    rw [parent?_entered, parent?_opened, if_neg (Nat.ne_of_lt hscope)]
  waiting_le scope hscope := by
    exact Nat.le_of_eq ((waiting_entered_of_ne (Nat.ne_of_lt hscope)).trans (waiting_opened parent))

/-- From a scope on nothing more is to be built. -/
lemma stock_le (h : bound.Within table) (hbound : bound.Ordered) (htable : table.Ordered)
    (hscope : scope < bound.scopes.size) : table.stock scope ≤ bound.stock scope := by
  induction scope using Nat.strongRecOn with
  | _ scope ih =>
    rw [stock_eq htable, stock_eq hbound, h.parent_eq scope hscope]
    refine Nat.add_le_add (h.waiting_le scope hscope) ?_
    cases hparent : bound.parent? scope with
    | none => exact Nat.le_refl _
    | some parent =>
      have hlt := hbound.parent_lt scope parent hparent
      exact ih parent hlt (Nat.lt_trans hlt hscope)

end Within

/-- **A name uses up what it stands for.** -/
lemma stock_setEntry_add_le (h : table.Ordered) {source : TypeSource}
    (hlookup : table.lookup? home name = some (.pending source)) (hentry : entry.weight = 0) :
    (table.setEntry home name entry).stock home + source.specifiers.weight ≤ table.stock home := by
  have hhome := lt_size_of_lookup? hlookup
  have hordered := h.setEntry home name entry
  have hset := waiting_setEntry h hhome name entry
  have hparents : (((table.setEntry home name entry).parent? home).map
      (table.setEntry home name entry).stock).getD 0 ≤ ((table.parent? home).map table.stock).getD 0 := by
    rw [parent?_setEntry]
    cases hparent : table.parent? home with
    | none => exact Nat.le_refl _
    | some parent =>
      have hlt := h.parent_lt home parent hparent
      exact (Within.setEntry h home name hentry).stock_le h hordered (Nat.lt_trans hlt hhome)
  rw [hlookup, Option.map_some, Option.getD_some, hentry, TypeEntry.weight] at hset
  rw [stock_eq hordered, stock_eq h]
  omega

/-- A scope that is opened adds what is entered into it. -/
lemma stock_entered_le (h : table.Ordered) (hparent : parent < table.scopes.size)
    (entries : List (String × TypeSource)) :
    ((table.opened parent).entered table.scopes.size entries).stock table.scopes.size ≤
      Node.weightOfEntries entries + table.stock parent := by
  have hopened := h.opened hparent
  have hordered := hopened.entered table.scopes.size entries
  have hscope : table.scopes.size < (table.opened parent).scopes.size := by simp
  have hwaiting := waiting_entered_le hopened hscope entries
  have hstock := (Within.entered parent entries).stock_le h hordered hparent
  rw [waiting_opened, waiting_eq_zero (Nat.le_refl _)] at hwaiting
  rw [stock_eq hordered, parent?_entered, parent?_opened, if_pos rfl, Option.map_some, Option.getD_some]
  omega

end TypeTable

end CommonTrace
