import CommonTrace.Proofs.Schema.AlikeTables
import CommonTrace.Proofs.Schema.Comparison

/-!
# Names beside the blocks

The names that are declared beside the blocks of a tree are known to all of its blocks, and the types of
these names are built when a block first refers to them.  So what one block does to the scope of the whole
metadata can be seen by the blocks after it.  Here it is said what that can be.

A table is `Globals.Fit` if the scope of the whole metadata has the declared names in it, and besides them at
most those that come with a body inside a definition (`Globals.Brought`).  While types are built such a table
grows (`TypeTable.Grows`): a name whose type is being built stays so, and a type that is known stays known.
Scopes that were there before may be frozen: nothing is done in them if nothing is built in them or in a
scope inside.
-/

namespace CommonTrace

open Tsdl

/-! ## Parts of a tree -/

namespace Tsdl.Node

/-- A node stands somewhere in a tree. -/
inductive Contains : Node → Node → Prop
  | refl (node : Node) : Contains node node
  | child {node child below : Node} (hchild : child ∈ node.children) (h : Contains child below) :
      Contains node below

/-- The names of compound types that become known when specifiers are built, in the scope in which they are
built. -/
inductive Brings : Node → String → Prop
  | own {specifiers : Node} {name : String} (h : specifiers.Introduces name) : Brings specifiers name
  | container {specifiers container : Node} {name : String} (hcontainer : specifiers.HasContainer container)
      (h : Brings container name) : Brings specifiers name

variable {root node child below specifiers : Node} {kind : NodeKind}

namespace Contains

lemma trans (h : root.Contains node) (hbelow : node.Contains below) : root.Contains below := by
  induction h with
  | refl => exact hbelow
  | child hchild _ ih => exact .child hchild (ih hbelow)

lemma of_mem (h : root.Contains node) (hchild : child ∈ node.children) : root.Contains child :=
  h.trans (.child hchild (.refl child))

lemma of_child? (h : root.Contains node) (hchild : node.child? kind = some child) :
    root.Contains child :=
  h.of_mem (List.mem_of_find?_eq_some hchild)

lemma container (h : root.Contains specifiers) {container : Node}
    (hcontainer : specifiers.HasContainer container) : root.Contains container := by
  obtain ⟨first, holder, hfirst, -, hholder, hcontainer⟩ := hcontainer
  exact ((h.of_mem (List.mem_of_head? hfirst)).of_child? hholder).of_child? hcontainer

lemma body (h : root.Contains specifiers) {body : Node} (hbody : specifiers.HasBody body) :
    root.Contains body := by
  obtain ⟨first, hfirst, ⟨-, hbody⟩ | ⟨-, hbody⟩⟩ := hbody
  · exact (h.of_mem (List.mem_of_head? hfirst)).of_child? hbody
  · exact (h.of_mem (List.mem_of_head? hfirst)).of_child? hbody

lemma member {body : Node} (h : root.Contains body) (hmember : body.HasMember specifiers) :
    root.Contains specifiers := by
  cases hmember with
  | field hdeclaration hspecifiers =>
    exact (h.of_mem (List.mem_filter.mp hdeclaration).1).of_child? hspecifiers
  | layout hnode ha hspecifiers =>
    obtain ⟨right, hright, hmem⟩ := Assignment.exists_right_of_type ha hspecifiers
    exact ((h.of_mem (List.mem_filter.mp hnode).1).of_child? hright).of_mem hmem

/-- The types of names that are declared by a node of the tree stand in the tree. -/
lemma declared (h : root.Contains node) {entries : List (String × TypeSource)}
    (hdeclares : node.Declares entries) {entry : String × TypeSource} (hentry : entry ∈ entries) :
    root.Contains entry.2.specifiers := by
  cases hdeclares with
  | «alias» _ htarget _ hspecifiers =>
    cases List.mem_singleton.mp hentry
    exact (h.of_child? htarget).of_child? hspecifiers
  | typedef _ hspecifiers _ hentries =>
    generalize childrenOf _ _ = declarators at hentries
    induction hentries with
    | nil => cases hentry
    | cons hfirst _ ih =>
      rcases List.mem_cons.mp hentry with rfl | hentry
      · rw [hfirst.2]
        exact h.of_child? hspecifiers
      · exact ih hentry
  | declaration _ hspecifiers =>
    obtain ⟨name, -, rfl⟩ := List.mem_map.mp hentry
    exact h.of_child? hspecifiers
  | other _ => cases hentry

lemma declared_flatten {nodes : List Node} (h : ∀ node ∈ nodes, root.Contains node)
    {declared : List (List (String × TypeSource))} (hdeclared : List.Forall₂ Declares nodes declared)
    {entry : String × TypeSource} (hentry : entry ∈ declared.flatten) :
    root.Contains entry.2.specifiers := by
  induction hdeclared with
  | nil => cases hentry
  | cons hfirst _ ih =>
    rw [List.flatten_cons, List.mem_append] at hentry
    rcases hentry with hentry | hentry
    · exact (h _ List.mem_cons_self).declared hfirst hentry
    · exact ih (fun node hnode => h node (List.mem_cons_of_mem _ hnode)) hentry

end Contains

end Tsdl.Node

/-! ## Names of the whole metadata -/

/-- A tree, the byte order of its types, and the names that are declared beside its blocks. -/
structure Globals where
  /-- The tree. -/
  root : Node
  /-- The byte order of types that declare none. -/
  native : ByteOrder
  /-- The names, with the nodes that describe their types. -/
  entries : List (String × TypeSource)
  declareAll : Node.DeclareAll root.children entries
  nodup : (entries.map Prod.fst).Nodup

namespace Globals

variable (g : Globals)

/-- The declared names. -/
def names : List String :=
  g.entries.map Prod.fst

/-- A compound type of the name is described inside a definition of some name. -/
def Brought (name : String) : Prop :=
  ∃ entry ∈ g.entries, entry.2.specifiers.Brings name

/-- The type of a name can be built: it stands in the tree. -/
def Describes (source : TypeSource) : Prop :=
  g.root.Contains source.specifiers ∧ source.specifiers.kind = .typeSpecifierList

variable {g}

lemma describes_of_mem {entry : String × TypeSource} (h : entry ∈ g.entries) : g.Describes entry.2 := by
  obtain ⟨declared, hdeclared, heq⟩ := g.declareAll
  rw [heq] at h
  refine ⟨Node.Contains.declared_flatten (fun node hnode => ?_) hdeclared h,
    Node.kind_of_declared hdeclared h⟩
  exact (Node.Contains.refl g.root).of_mem hnode

end Globals

/-! ## Tables that grow -/

/-- What becomes of an entry while types are built: it stays, or a type becomes known under its name. -/
inductive TypeEntry.Evolves : Option TypeEntry → Option TypeEntry → Prop
  | same (entry : Option TypeEntry) : Evolves entry entry
  | brought (t : FieldType) : Evolves none (some (.built t))
  | built (source : TypeSource) (t : FieldType) : Evolves (some (.pending source)) (some (.built t))

namespace TypeEntry.Evolves

variable {entry entry' entry'' : Option TypeEntry}

lemma trans (h : Evolves entry entry') (h' : Evolves entry' entry'') : Evolves entry entry'' := by
  cases h with
  | same => exact h'
  | brought t =>
    cases h'
    exact .brought t
  | built source t =>
    cases h'
    exact .built source t

lemma eq_of_built {t : FieldType} (h : Evolves (some (.built t)) entry) : entry = some (.built t) := by
  cases h
  rfl

lemma eq_of_inProgress (h : Evolves (some .inProgress) entry) : entry = some .inProgress := by
  cases h
  rfl

lemma isSome (h : Evolves entry entry') (hentry : entry.isSome = true) : entry'.isSome = true := by
  cases h with
  | same => exact hentry
  | brought => rfl
  | built => rfl

end TypeEntry.Evolves

namespace TypeTable

variable {floor : ℕ} {table table' table'' : TypeTable} {scope parent : TypeScopeId} {name : String}

/-- **What happens to a table while types are built.**  Scopes below the floor are frozen, except for that of
the whole metadata. -/
structure Grows (floor : ℕ) (table table' : TypeTable) : Prop where
  native_eq : table'.native = table.native
  size_le : table.scopes.size ≤ table'.scopes.size
  parent_eq : ∀ scope < table.scopes.size, table'.parent? scope = table.parent? scope
  frozen : ∀ scope, scope ≠ rootScope → scope < floor → ∀ name,
    table'.lookup? scope name = table.lookup? scope name
  evolves : ∀ scope < table.scopes.size, ∀ name,
    TypeEntry.Evolves (table.lookup? scope name) (table'.lookup? scope name)

namespace Grows

lemma refl (floor : ℕ) (table : TypeTable) : table.Grows floor table :=
  ⟨rfl, Nat.le_refl _, fun _ _ => rfl, fun _ _ _ _ => rfl, fun _ _ _ => .same _⟩

lemma trans (h : table.Grows floor table') (h' : table'.Grows floor table'') :
    table.Grows floor table'' where
  native_eq := h'.native_eq.trans h.native_eq
  size_le := Nat.le_trans h.size_le h'.size_le
  parent_eq scope hscope :=
    (h'.parent_eq scope (Nat.lt_of_lt_of_le hscope h.size_le)).trans (h.parent_eq scope hscope)
  frozen scope hroot hfloor name :=
    (h'.frozen scope hroot hfloor name).trans (h.frozen scope hroot hfloor name)
  evolves scope hscope name :=
    (h.evolves scope hscope name).trans (h'.evolves scope (Nat.lt_of_lt_of_le hscope h.size_le) name)

lemma note (floor : ℕ) (table : TypeTable) (notes : Notes) : table.Grows floor (table.note notes) :=
  ⟨rfl, Nat.le_refl _, fun _ _ => rfl, fun _ _ _ _ => rfl, fun _ _ _ => .same _⟩

/-- A type becomes known in a scope that is not frozen. -/
lemma setEntry (hscope : scope = rootScope ∨ floor ≤ scope) {t : FieldType}
    (hentry : TypeEntry.Evolves (table.lookup? scope name) (some (.built t))) :
    table.Grows floor (table.setEntry scope name (.built t)) where
  native_eq := rfl
  size_le := Nat.le_of_eq (size_setEntry table scope name _).symm
  parent_eq scope' _ := parent?_setEntry table scope scope' name _
  frozen scope' hroot hfloor name' := by
    rw [lookup?_setEntry, if_neg]
    rintro ⟨rfl, -, -⟩
    rcases hscope with hscope | hscope
    · exact hroot hscope
    · exact Nat.not_lt.mpr hscope hfloor
  evolves scope' _ name' := by
    rw [lookup?_setEntry]
    split
    · rename_i hsame
      rw [hsame.1, hsame.2.1]
      exact hentry
    · exact .same _

/-- Names are entered into a new scope. -/
lemma entered (hfloor : floor ≤ table.scopes.size) (parent : TypeScopeId)
    (entries : List (String × TypeSource)) :
    table.Grows floor ((table.opened parent).entered table.scopes.size entries) where
  native_eq := by rw [native_entered, native_opened]
  size_le := by simp
  parent_eq scope hscope := by
    rw [parent?_entered, parent?_opened, if_neg (Nat.ne_of_lt hscope)]
  frozen scope _ hscope name := by
    have hlt := Nat.lt_of_lt_of_le hscope hfloor
    rw [lookup?_entered_of_ne _ _ _ (Nat.ne_of_lt hlt), lookup?_opened]
  evolves scope hscope name := by
    rw [lookup?_entered_of_ne _ _ _ (Nat.ne_of_lt hscope), lookup?_opened]
    exact .same _

/-- The type of a name has been built while its entry was marked. -/
lemma of_marked {source : TypeSource} {t : FieldType} (hscope : scope = rootScope ∨ floor ≤ scope)
    (hlookup : table.lookup? scope name = some (.pending source))
    (h : (table.setEntry scope name .inProgress).Grows floor table') :
    table.Grows floor (table'.setEntry scope name (.built t)) where
  native_eq := h.native_eq
  size_le := by
    have hsize := h.size_le
    rw [size_setEntry] at hsize ⊢
    exact hsize
  parent_eq scope' hscope' := by
    rw [parent?_setEntry, h.parent_eq scope' (by rwa [size_setEntry]), parent?_setEntry]
  frozen scope' hroot hfloor name' := by
    have hne : scope' ≠ scope := by
      rintro rfl
      rcases hscope with hscope | hscope
      · exact hroot hscope
      · exact Nat.not_lt.mpr hscope hfloor
    rw [lookup?_setEntry, if_neg fun hsame => hne hsame.1, h.frozen scope' hroot hfloor name',
      lookup?_setEntry, if_neg fun hsame => hne hsame.1]
  evolves scope' hscope' name' := by
    have hevolves := h.evolves scope' (by rwa [size_setEntry]) name'
    rw [lookup?_setEntry] at hevolves ⊢
    by_cases hsame : scope' = scope ∧ name' = name
    · obtain ⟨rfl, rfl⟩ := hsame
      have hsize := h.size_le
      rw [size_setEntry] at hsize
      rw [if_pos ⟨rfl, rfl, Nat.lt_of_lt_of_le hscope' hsize⟩, hlookup]
      exact .built source t
    · rw [if_neg fun h => hsame ⟨h.1, h.2.1⟩] at hevolves
      rw [if_neg fun h => hsame ⟨h.1, h.2.1⟩]
      exact hevolves

end Grows

end TypeTable

namespace Globals

open TypeTable

variable {g : Globals} {floor : ℕ} {table : TypeTable} {scope parent : TypeScopeId} {name : String}
  {entry : TypeEntry}

/-- **A table that fits the names of the whole metadata.**  Scopes from the floor on lie inside each other or
in that of the whole metadata. -/
structure Fit (g : Globals) (floor : ℕ) (table : TypeTable) : Prop extends table.Ordered where
  native_eq : table.native = g.native
  floor_pos : 0 < floor
  floor_le : floor ≤ table.scopes.size
  parent : ∀ scope parent, floor ≤ scope → table.parent? scope = some parent →
    parent = rootScope ∨ floor ≤ parent
  source : ∀ scope name source, table.lookup? scope name = some (.pending source) → g.Describes source
  declared : ∀ name source, (name, source) ∈ g.entries →
    table.lookup? rootScope name = some (.pending source) ∨
      table.lookup? rootScope name = some .inProgress ∨
      ∃ t, table.lookup? rootScope name = some (.built t)
  other : ∀ name entry, name ∉ g.names → table.lookup? rootScope name = some entry →
    (∃ t, entry = .built t) ∧ g.Brought name

namespace Fit

lemma root_lt (h : g.Fit floor table) : rootScope < table.scopes.size :=
  Nat.lt_of_lt_of_le h.floor_pos h.floor_le

lemma parent_root (h : g.Fit floor table) : table.parent? rootScope = none := by
  cases hparent : table.parent? rootScope with
  | none => rfl
  | some parent => exact absurd (h.parent_lt _ _ hparent) (Nat.not_lt_zero parent)

/-- A declared name is in the scope of the whole metadata. -/
lemma isSome_of_mem (h : g.Fit floor table) (hname : name ∈ g.names) :
    (table.lookup? rootScope name).isSome = true := by
  obtain ⟨⟨_, source⟩, hentry, rfl⟩ := List.mem_map.mp hname
  rcases h.declared _ source hentry with h | h | ⟨t, h⟩ <;> rw [h] <;> rfl

/-- The scopes that are there may be frozen. -/
lemma freeze (h : g.Fit floor table) : g.Fit table.scopes.size table where
  toOrdered := h.toOrdered
  native_eq := h.native_eq
  floor_pos := h.root_lt
  floor_le := Nat.le_refl _
  parent scope parent hscope hparent := by
    rw [parent?, getElem?_neg table.scopes scope (Nat.not_lt.mpr hscope)] at hparent
    cases hparent
  source := h.source
  declared := h.declared
  other := h.other

lemma thaw (h : g.Fit floor table) : g.Fit 1 table where
  toOrdered := h.toOrdered
  native_eq := h.native_eq
  floor_pos := Nat.one_pos
  floor_le := h.root_lt
  parent _ parent _ _ := (Nat.eq_zero_or_pos parent).imp id id
  source := h.source
  declared := h.declared
  other := h.other

/-- What is pending in the scope of the whole metadata is declared. -/
lemma mem_of_pending (h : g.Fit floor table) {source : TypeSource}
    (hlookup : table.lookup? rootScope name = some (.pending source)) : (name, source) ∈ g.entries := by
  by_cases hname : name ∈ g.names
  · obtain ⟨⟨_, source'⟩, hentry, rfl⟩ := List.mem_map.mp hname
    rcases h.declared _ source' hentry with heq | heq | ⟨t, heq⟩ <;> rw [hlookup] at heq <;> cases heq
    exact hentry
  · obtain ⟨⟨t, ht⟩, -⟩ := h.other name _ hname hlookup
    cases ht

/-- Scopes around a scope that is not frozen are not frozen. -/
lemma around (h : g.Fit floor table) (hscope : scope = rootScope ∨ floor ≤ scope) {home : TypeScopeId}
    (hhome : home ∈ table.around scope) : home = rootScope ∨ floor ≤ home := by
  induction scope using Nat.strongRecOn with
  | _ scope ih =>
    rw [h.around_eq] at hhome
    rcases List.mem_cons.mp hhome with rfl | hhome
    · exact hscope
    · cases hparent : table.parent? scope with
      | none =>
        rw [hparent] at hhome
        cases hhome
      | some parent =>
        rw [hparent] at hhome
        refine ih parent (h.parent_lt scope parent hparent) ?_ hhome
        rcases hscope with rfl | hscope
        · rw [h.parent_root] at hparent
          cases hparent
        · exact h.parent scope parent hscope hparent

lemma note (h : g.Fit floor table) (notes : Notes) : g.Fit floor (table.note notes) :=
  { h with toOrdered := h.toOrdered.note notes }

/-- An entry for a type that is being built or is known. -/
lemma setEntry (h : g.Fit floor table) (hentry : entry = .inProgress ∨ ∃ t, entry = .built t)
    (hroot : scope = rootScope → name ∉ g.names → (∃ t, entry = .built t) ∧ g.Brought name) :
    g.Fit floor (table.setEntry scope name entry) where
  toOrdered := h.toOrdered.setEntry scope name entry
  native_eq := h.native_eq
  floor_pos := h.floor_pos
  floor_le := by rw [size_setEntry]; exact h.floor_le
  parent scope' parent hscope hparent := by
    rw [parent?_setEntry] at hparent
    exact h.parent scope' parent hscope hparent
  source scope' name' source hlookup := by
    rw [lookup?_setEntry] at hlookup
    split at hlookup
    · cases hlookup
      rcases hentry with hentry | ⟨t, hentry⟩ <;> cases hentry
    · exact h.source scope' name' source hlookup
  declared name' source hmem := by
    rw [lookup?_setEntry]
    split
    · rcases hentry with rfl | ⟨t, rfl⟩
      · exact .inr (.inl rfl)
      · exact .inr (.inr ⟨t, rfl⟩)
    · exact h.declared name' source hmem
  other name' entry' hname hlookup := by
    rw [lookup?_setEntry] at hlookup
    split at hlookup
    · rename_i hsame
      obtain ⟨hscope, rfl, -⟩ := hsame
      cases hlookup
      exact hroot hscope.symm hname
    · exact h.other name' entry' hname hlookup

/-- A scope that is opened for a body of the tree. -/
lemma entered (h : g.Fit floor table) (hparent : parent < table.scopes.size)
    (hfloor : parent = rootScope ∨ floor ≤ parent) {entries : List (String × TypeSource)}
    (hentries : ∀ entry ∈ entries, g.Describes entry.2) :
    g.Fit floor ((table.opened parent).entered table.scopes.size entries) := by
  have hroot (name : String) :
      ((table.opened parent).entered table.scopes.size entries).lookup? rootScope name =
        table.lookup? rootScope name := by
    rw [lookup?_entered_of_ne _ _ _ (Nat.ne_of_lt h.root_lt), lookup?_opened]
  refine ⟨(h.toOrdered.opened hparent).entered _ _, by simp [h.native_eq], h.floor_pos, ?_,
    fun scope parent' hscope hparent' => ?_,
    fun scope name source hlookup => ?_, fun name source hmem => ?_, fun name entry hname hlookup => ?_⟩
  · rw [size_entered, size_opened]
    exact Nat.le_succ_of_le h.floor_le
  · rw [parent?_entered, parent?_opened] at hparent'
    split at hparent'
    · cases hparent'
      exact hfloor
    · exact h.parent scope parent' hscope hparent'
  · rcases lookup?_entered_cases (table.opened parent) table.scopes.size entries scope name with
      heq | ⟨entry, hentry, heq⟩
    · rw [heq, lookup?_opened] at hlookup
      exact h.source scope name source hlookup
    · rw [heq] at hlookup
      cases hlookup
      exact hentries entry hentry
  · rw [hroot]
    exact h.declared name source hmem
  · rw [hroot] at hlookup
    exact h.other name entry hname hlookup

end Fit

end Globals

end CommonTrace
