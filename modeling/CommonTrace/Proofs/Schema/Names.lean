import CommonTrace.Proofs.Dictionary
import CommonTrace.Proofs.Schema.Nameless
import CommonTrace.Proofs.Tsdl.Rearranged
import Mathlib.Data.Nat.Notation
import Mathlib.Tactic.ByContra

/-!
# Names in scopes

A table of names is changed in three ways only: a scope is opened, the entry of a name is set, and notes are
added.  What is found in the table after the first two is said here; notes do not matter for it.  In all
tables that come up, a scope lies inside one that was opened before it, and its names are in order
(`TypeTable.Ordered`).  So a name is searched in a scope first and then in the scope around it
(`TypeTable.Ordered.nearest?_eq`).

The names of a block or a body are entered before anything else is done with it.  `Tsdl.Node.Declares` says
which names a node declares, and `TypeM.enterAll_eq_ok_iff` that entering the names of some nodes succeeds if
no name is declared twice.
-/

namespace CommonTrace

open Tsdl

namespace TypeTable

/-! ## Changing a table -/

/-- The scope around a scope. -/
def parent? (table : TypeTable) (scope : TypeScopeId) : Option TypeScopeId :=
  table.scopes[scope]?.bind TypeScope.parent

/-- The table with one more scope. -/
def opened (table : TypeTable) (parent : TypeScopeId) : TypeTable :=
  { table with scopes := table.scopes.push ⟨some parent, .empty⟩ }

section Changes

variable (table : TypeTable) (scope scope' parent : TypeScopeId) (name name' : String)
  (entry : TypeEntry)

@[simp] lemma native_setEntry : (table.setEntry scope name entry).native = table.native := rfl

@[simp] lemma clocks_setEntry : (table.setEntry scope name entry).clocks = table.clocks := rfl

@[simp] lemma warnings_setEntry : (table.setEntry scope name entry).warnings = table.warnings := rfl

@[simp] lemma size_setEntry : (table.setEntry scope name entry).scopes.size = table.scopes.size := by
  simp [setEntry]

@[simp] lemma parent?_setEntry :
    (table.setEntry scope name entry).parent? scope' = table.parent? scope' := by
  unfold parent? setEntry
  rw [Array.getElem?_modify]
  by_cases h : scope = scope'
  · subst h
    cases table.scopes[scope]? <;> simp
  · simp [h]

lemma lookup?_setEntry :
    (table.setEntry scope name entry).lookup? scope' name' =
      if scope' = scope ∧ name' = name ∧ scope < table.scopes.size then some entry
      else table.lookup? scope' name' := by
  unfold lookup? setEntry
  rw [Array.getElem?_modify]
  by_cases h : scope = scope'
  · subst h
    by_cases hsize : scope < table.scopes.size
    · simp only [if_true, getElem?_pos table.scopes scope hsize, Option.map_some, Option.bind_some,
        Dictionary.get?_insert, true_and, hsize, and_true]
    · simp [hsize]
  · simp [h, Ne.symm h]

@[simp] lemma native_opened : (table.opened parent).native = table.native := rfl

@[simp] lemma size_opened : (table.opened parent).scopes.size = table.scopes.size + 1 := by
  simp [opened]

@[simp] lemma lookup?_opened : (table.opened parent).lookup? scope name = table.lookup? scope name := by
  unfold lookup? opened
  rw [Array.getElem?_push]
  split
  · rename_i h
    subst h
    simp [Dictionary.get?_empty]
  · rfl

lemma parent?_opened :
    (table.opened parent).parent? scope =
      if scope = table.scopes.size then some parent else table.parent? scope := by
  unfold parent? opened
  rw [Array.getElem?_push]
  split <;> simp

lemma lookup?_empty (native : ByteOrder) (scope : TypeScopeId) (name : String) :
    (TypeTable.empty native).lookup? scope name = none := by
  cases scope with
  | zero => exact Dictionary.get?_empty name
  | succ scope => rfl

lemma lookup?_eq_none (h : table.scopes.size ≤ scope) : table.lookup? scope name = none := by
  rw [lookup?, getElem?_neg table.scopes scope (Nat.not_lt.mpr h), Option.bind_none]

lemma lt_size_of_lookup? {table : TypeTable} {scope : TypeScopeId} {name : String}
    {entry : TypeEntry} (h : table.lookup? scope name = some entry) : scope < table.scopes.size := by
  by_contra hsize
  rw [lookup?_eq_none table scope name (Nat.not_lt.mp hsize)] at h
  cases h

end Changes

/-! ## Scopes inside scopes -/

/-- A scope lies inside an earlier one, and its names are in order. -/
structure Ordered (table : TypeTable) : Prop where
  parent_lt : ∀ scope parent, table.parent? scope = some parent → parent < scope
  sorted : ∀ (i : ℕ) (scope : TypeScope), table.scopes[i]? = some scope → scope.entries.Sorted

/-- A scope and the scopes around it, nearest first. -/
def around (table : TypeTable) (scope : TypeScopeId) : List TypeScopeId :=
  table.outwards (scope + 1) scope

namespace Ordered

variable {table : TypeTable} {scope parent : TypeScopeId} {name : String} {entry : TypeEntry}

lemma empty (native : ByteOrder) : (TypeTable.empty native).Ordered where
  parent_lt scope parent h := by
    cases scope with
    | zero => cases h
    | succ scope => cases h
  sorted i scope h := by
    cases i with
    | zero =>
      cases h
      exact .empty
    | succ i => cases h

lemma note (h : table.Ordered) (notes : Notes) : (table.note notes).Ordered :=
  ⟨h.parent_lt, h.sorted⟩

lemma setEntry (h : table.Ordered) (scope : TypeScopeId) (name : String) (entry : TypeEntry) :
    (table.setEntry scope name entry).Ordered where
  parent_lt scope' parent hparent := by
    rw [parent?_setEntry] at hparent
    exact h.parent_lt scope' parent hparent
  sorted i s hs := by
    rw [TypeTable.setEntry, Array.getElem?_modify] at hs
    split at hs
    · obtain ⟨old, hold, rfl⟩ := Option.map_eq_some_iff.mp hs
      exact (h.sorted i old hold).insert name entry
    · exact h.sorted i s hs

lemma opened (h : table.Ordered) (hparent : parent < table.scopes.size) :
    (table.opened parent).Ordered where
  parent_lt scope parent' hparent' := by
    rw [parent?_opened] at hparent'
    split at hparent'
    · rename_i hscope
      cases hparent'
      exact hscope ▸ hparent
    · exact h.parent_lt scope parent' hparent'
  sorted i s hs := by
    rw [TypeTable.opened, Array.getElem?_push] at hs
    split at hs
    · cases hs
      exact .empty
    · exact h.sorted i s hs

/-- The scopes around a scope are found within as many steps as there are scopes before it. -/
lemma outwards_eq_around (h : table.Ordered) {depth : ℕ} (hdepth : scope < depth) :
    table.outwards depth scope = table.around scope := by
  induction scope using Nat.strongRecOn generalizing depth with
  | _ scope ih =>
    obtain ⟨depth, rfl⟩ := Nat.exists_eq_add_one_of_ne_zero (Nat.ne_zero_of_lt hdepth)
    unfold around outwards
    cases hparent : table.scopes[scope]?.bind TypeScope.parent with
    | none => rfl
    | some parent =>
      have hlt : parent < scope := h.parent_lt scope parent hparent
      dsimp only
      rw [ih parent hlt (Nat.lt_of_lt_of_le hlt (Nat.lt_succ_iff.mp hdepth)), ih parent hlt hlt]

/-- A scope is followed by the scope around it. -/
lemma around_eq (h : table.Ordered) (scope : TypeScopeId) :
    table.around scope = scope :: ((table.parent? scope).map table.around).getD [] := by
  rw [around, outwards]
  cases hparent : table.parent? scope with
  | none =>
    rw [parent?] at hparent
    rw [hparent]
    rfl
  | some parent =>
    rw [Option.map_some, Option.getD_some,
      ← h.outwards_eq_around (h.parent_lt scope parent hparent)]
    rw [parent?] at hparent
    rw [hparent]

/-- A name is searched in a scope first and then in the scope around it. -/
lemma nearest?_eq (h : table.Ordered) (hscope : scope < table.scopes.size) (name : String) :
    table.nearest? scope name =
      ((table.lookup? scope name).map (scope, ·)).or
        ((table.parent? scope).bind (table.nearest? · name)) := by
  rw [nearest?, h.outwards_eq_around hscope, h.around_eq, List.findSome?_cons]
  cases table.lookup? scope name with
  | some entry => rfl
  | none =>
    cases hparent : table.parent? scope with
    | none => rfl
    | some parent =>
      have hlt := h.parent_lt scope parent hparent
      rw [Option.map_none, Option.none_or, Option.bind_some, nearest?,
        h.outwards_eq_around (Nat.lt_trans hlt hscope), Option.map_some, Option.getD_some]

/-- A name is found in a scope around the one where it is searched. -/
lemma mem_around (h : table.Ordered) {home : TypeScopeId} (hscope : scope < table.scopes.size)
    (hnearest : table.nearest? scope name = some (home, entry)) : home ∈ table.around scope := by
  rw [nearest?, h.outwards_eq_around hscope] at hnearest
  obtain ⟨id, hid, hfound⟩ := List.exists_of_findSome?_eq_some hnearest
  obtain ⟨_, _, heq⟩ := Option.map_eq_some_iff.mp hfound
  cases heq
  exact hid

/-- The names of a scope are the keys of a sorted dictionary. -/
lemma exists_entries (h : table.Ordered) (scope : TypeScopeId) :
    ∃ entries : Dictionary String TypeEntry, entries.Sorted ∧ table.names scope = entries.keys ∧
      ∀ name, table.lookup? scope name = entries.get? name := by
  unfold names lookup?
  cases hscope : table.scopes[scope]? with
  | none => exact ⟨.empty, .empty, rfl, fun _ => rfl⟩
  | some s => exact ⟨s.entries, h.sorted scope s hscope, rfl, fun _ => rfl⟩

lemma mem_names_iff (h : table.Ordered) :
    name ∈ table.names scope ↔ (table.lookup? scope name).isSome = true := by
  obtain ⟨entries, -, hnames, hlookup⟩ := h.exists_entries scope
  rw [hnames, hlookup, Dictionary.mem_keys_iff]

/-- Scopes with the same names have them in the same order. -/
lemma names_eq {table' : TypeTable} {scope' : TypeScopeId} (h : table.Ordered) (h' : table'.Ordered)
    (hsame : ∀ name, (table.lookup? scope name).isSome = (table'.lookup? scope' name).isSome) :
    table.names scope = table'.names scope' := by
  obtain ⟨entries, hsorted, hnames, hlookup⟩ := h.exists_entries scope
  obtain ⟨entries', hsorted', hnames', hlookup'⟩ := h'.exists_entries scope'
  rw [hnames, hnames']
  refine hsorted.keys_eq hsorted' fun name => ?_
  rw [← hlookup, ← hlookup', hsame]

end Ordered

end TypeTable

/-! ## Names that are declared -/

namespace Tsdl.Node

open TypeM

/-- **The names that a node declares**, with the nodes that describe their types. -/
inductive Declares : Node → List (String × TypeSource) → Prop
  | alias {node target aliased specifiers : Node} {name : String} (hkind : node.kind = .typeAlias)
      (htarget : node.child? .typeAliasTarget = some target)
      (haliased : node.child? .typeAliasAlias = some aliased)
      (hspecifiers : target.child? .typeSpecifierList = some specifiers)
      (hname : aliasName aliased = pure name) :
      Declares node [(name, ⟨specifiers, target.child? .typeDeclarator⟩)]
  | typedef {node specifiers declarators : Node} {entries : List (String × TypeSource)}
      (hkind : node.kind = .typeDef) (hspecifiers : node.child? .typeSpecifierList = some specifiers)
      (hdeclarators : node.child? .typeDeclaratorList = some declarators)
      (hentries : List.Forall₂
        (fun declarator entry => declaratorName declarator = pure entry.1 ∧
          entry.2 = ⟨specifiers, some declarator⟩)
        (declarators.childrenOf .typeDeclarator) entries) :
      Declares node entries
  | declaration {node specifiers : Node} (hkind : node.kind = .typeDeclaration)
      (hspecifiers : node.child? .typeSpecifierList = some specifiers) :
      Declares node
        ((specifiers.children.head?.bind compoundName?).toList.map (·, ⟨specifiers, none⟩))
  | other {node : Node} (hkind : node.kind.isDefinition = false) : Declares node []

variable {node : Node} {nodes : List Node} {entries : List (String × TypeSource)}

/-- The types of names that are declared are given by lists of specifiers. -/
lemma Declares.kind_eq (h : node.Declares entries) {entry : String × TypeSource} (hentry : entry ∈ entries) :
    entry.2.specifiers.kind = .typeSpecifierList := by
  cases h with
  | «alias» _ _ _ hspecifiers =>
    cases List.mem_singleton.mp hentry
    exact kind_of_child? hspecifiers
  | typedef _ hspecifiers _ hentries =>
    generalize childrenOf _ _ = declarators at hentries
    induction hentries with
    | nil => cases hentry
    | cons hfirst _ ih =>
      rcases List.mem_cons.mp hentry with rfl | hentry
      · rw [hfirst.2]
        exact kind_of_child? hspecifiers
      · exact ih hentry
  | declaration _ hspecifiers =>
    obtain ⟨name, -, rfl⟩ := List.mem_map.mp hentry
    exact kind_of_child? hspecifiers
  | other _ => cases hentry

/-- Only definitions declare names. -/
lemma Declares.eq_nil (h : node.Declares entries) (hkind : node.kind.isDefinition = false) :
    entries = [] := by
  cases h with
  | «alias» h => rw [h] at hkind; cases hkind
  | typedef h => rw [h] at hkind; cases hkind
  | declaration h => rw [h] at hkind; cases hkind
  | other _ => rfl

lemma kind_of_declared {declared : List (List (String × TypeSource))}
    (h : List.Forall₂ Declares nodes declared) {entry : String × TypeSource}
    (hentry : entry ∈ declared.flatten) : entry.2.specifiers.kind = .typeSpecifierList := by
  induction h with
  | nil => cases hentry
  | cons hfirst _ ih =>
    rw [List.flatten_cons, List.mem_append] at hentry
    rcases hentry with hentry | hentry
    · exact hfirst.kind_eq hentry
    · exact ih hentry

end Tsdl.Node

namespace TypeTable

/-- The table with pending entries for the given names in one scope. -/
def entered (scope : TypeScopeId) (table : TypeTable) (entries : List (String × TypeSource)) :
    TypeTable :=
  entries.foldl (fun table entry => table.setEntry scope entry.1 (.pending entry.2)) table

section Entered

variable {table : TypeTable} {scope : TypeScopeId} {entries : List (String × TypeSource)}

lemma entered_cons (entry : String × TypeSource) (rest : List (String × TypeSource)) :
    table.entered scope (entry :: rest) =
      (table.setEntry scope entry.1 (.pending entry.2)).entered scope rest := rfl

variable (table scope entries)

@[simp] lemma native_entered : (table.entered scope entries).native = table.native := by
  induction entries generalizing table with
  | nil => rfl
  | cons entry rest ih => rw [entered_cons, ih, native_setEntry]

@[simp] lemma clocks_entered : (table.entered scope entries).clocks = table.clocks := by
  induction entries generalizing table with
  | nil => rfl
  | cons entry rest ih => rw [entered_cons, ih, clocks_setEntry]

@[simp] lemma warnings_entered : (table.entered scope entries).warnings = table.warnings := by
  induction entries generalizing table with
  | nil => rfl
  | cons entry rest ih => rw [entered_cons, ih, warnings_setEntry]

@[simp] lemma size_entered : (table.entered scope entries).scopes.size = table.scopes.size := by
  induction entries generalizing table with
  | nil => rfl
  | cons entry rest ih => rw [entered_cons, ih, size_setEntry]

@[simp] lemma parent?_entered (scope' : TypeScopeId) :
    (table.entered scope entries).parent? scope' = table.parent? scope' := by
  induction entries generalizing table with
  | nil => rfl
  | cons entry rest ih => rw [entered_cons, ih, parent?_setEntry]

lemma lookup?_entered_of_ne {scope' : TypeScopeId} (h : scope' ≠ scope) (name : String) :
    (table.entered scope entries).lookup? scope' name = table.lookup? scope' name := by
  induction entries generalizing table with
  | nil => rfl
  | cons entry rest ih => rw [entered_cons, ih, lookup?_setEntry, if_neg fun hsame => h hsame.1]

/-- What is found under a name was there before, or it has been entered. -/
lemma lookup?_entered_cases (scope' : TypeScopeId) (name : String) :
    (table.entered scope entries).lookup? scope' name = table.lookup? scope' name ∨
      ∃ entry ∈ entries, (table.entered scope entries).lookup? scope' name = some (.pending entry.2) := by
  induction entries generalizing table with
  | nil => exact .inl rfl
  | cons entry rest ih =>
    rw [entered_cons]
    rcases ih (table.setEntry scope entry.1 (.pending entry.2)) with h | ⟨other, hother, h⟩
    · rw [h, lookup?_setEntry]
      split
      · exact .inr ⟨entry, List.mem_cons_self, rfl⟩
      · exact .inl rfl
    · exact .inr ⟨other, List.mem_cons_of_mem _ hother, h⟩

variable {table scope entries}

lemma Ordered.entered (h : table.Ordered) (scope : TypeScopeId)
    (entries : List (String × TypeSource)) : (table.entered scope entries).Ordered := by
  induction entries generalizing table with
  | nil => exact h
  | cons entry rest ih => exact ih (h.setEntry scope entry.1 _)

lemma lookup?_entered_of_notMem {name : String} (h : name ∉ entries.map Prod.fst) :
    (table.entered scope entries).lookup? scope name = table.lookup? scope name := by
  induction entries generalizing table with
  | nil => rfl
  | cons entry rest ih =>
    rw [List.map_cons, List.mem_cons, not_or] at h
    rw [entered_cons, ih h.2, lookup?_setEntry, if_neg fun hsame => h.1 hsame.2.1]

lemma lookup?_entered_of_mem (hscope : scope < table.scopes.size)
    (hnodup : (entries.map Prod.fst).Nodup) {name : String} {source : TypeSource}
    (h : (name, source) ∈ entries) :
    (table.entered scope entries).lookup? scope name = some (.pending source) := by
  induction entries generalizing table with
  | nil => cases h
  | cons entry rest ih =>
    rw [List.map_cons, List.nodup_cons] at hnodup
    rw [entered_cons]
    rcases List.mem_cons.mp h with rfl | h
    · rw [lookup?_entered_of_notMem hnodup.1, lookup?_setEntry, if_pos ⟨rfl, rfl, hscope⟩]
    · exact ih ((size_setEntry table scope _ _).symm ▸ hscope) hnodup.2 h

end Entered

end TypeTable

namespace TypeM

variable {scope : TypeScopeId} {table table' : TypeTable}

/-- Enters the given names one after the other. -/
def enterEach (scope : TypeScopeId) (entries : List (String × TypeSource)) : TypeM Unit :=
  entries.forM fun entry => enter scope entry.1 entry.2

lemma enterEach_cons (entry : String × TypeSource) (rest : List (String × TypeSource)) :
    enterEach scope (entry :: rest) =
      enter scope entry.1 entry.2 >>= fun _ => enterEach scope rest := rfl

lemma enterEach_append (first rest : List (String × TypeSource)) :
    enterEach scope (first ++ rest) = enterEach scope first >>= fun _ => enterEach scope rest := by
  induction first with
  | nil => rfl
  | cons entry first ih => rw [List.cons_append, enterEach_cons, enterEach_cons, ih, bind_assoc]

lemma enter_eq_ok_iff {name : String} {source : TypeSource} :
    enter scope name source table = .ok ((), table') ↔
      table.lookup? scope name = none ∧ table' = table.setEntry scope name (.pending source) := by
  have henter : enter scope name source table =
      if (table.lookup? scope name).isSome then .error (.repeated (.type name))
      else .ok ((), table.setEntry scope name (.pending source)) := by
    change (if _ then _ else _ : TypeM Unit) table = _
    split <;> rfl
  rw [henter]
  cases table.lookup? scope name with
  | some entry => simp
  | none => simp [eq_comm]

/-- Entering names succeeds if none of them is entered twice. -/
lemma enterEach_eq_ok_iff (hscope : scope < table.scopes.size)
    {entries : List (String × TypeSource)} :
    enterEach scope entries table = .ok ((), table') ↔
      (entries.map Prod.fst).Nodup ∧ (∀ entry ∈ entries, table.lookup? scope entry.1 = none) ∧
        table' = table.entered scope entries := by
  induction entries generalizing table with
  | nil =>
    change (Except.ok ((), table) : Except SchemaError _) = _ ↔ _
    simp [TypeTable.entered, eq_comm]
  | cons entry rest ih =>
    have hsize : scope < (table.setEntry scope entry.1 (.pending entry.2)).scopes.size := by
      rwa [TypeTable.size_setEntry]
    rw [List.map_cons, List.nodup_cons]
    constructor
    · intro h
      obtain ⟨⟨⟨⟩, middle⟩, hfirst, hrest⟩ := exists_of_bind_eq_ok h
      obtain ⟨hnone, rfl⟩ := enter_eq_ok_iff.mp hfirst
      obtain ⟨hnodup, hfresh, rfl⟩ := (ih hsize).mp hrest
      have hnotMem : entry.1 ∉ rest.map Prod.fst := by
        intro hmem
        obtain ⟨other, hother, hname⟩ := List.mem_map.mp hmem
        have htaken := hfresh other hother
        rw [TypeTable.lookup?_setEntry, if_pos ⟨rfl, hname, hscope⟩] at htaken
        cases htaken
      refine ⟨⟨hnotMem, hnodup⟩, List.forall_mem_cons.mpr ⟨hnone, fun other hother => ?_⟩, rfl⟩
      have hfree := hfresh other hother
      rw [TypeTable.lookup?_setEntry] at hfree
      split at hfree
      · cases hfree
      · exact hfree
    · rintro ⟨⟨hnotMem, hnodup⟩, hfresh, rfl⟩
      obtain ⟨hnone, hrest⟩ := List.forall_mem_cons.mp hfresh
      have hfirst : enter scope entry.1 entry.2 table =
          .ok ((), table.setEntry scope entry.1 (.pending entry.2)) :=
        enter_eq_ok_iff.mpr ⟨hnone, rfl⟩
      change enter scope entry.1 entry.2 table >>= (fun r => enterEach scope rest r.2) = _
      rw [hfirst]
      refine (ih hsize).mpr ⟨hnodup, fun other hother => ?_, rfl⟩
      have hne : other.1 ≠ entry.1 := fun heq => hnotMem (heq ▸ List.mem_map_of_mem hother)
      rw [TypeTable.lookup?_setEntry, if_neg fun hsame => hne hsame.2.1]
      exact hrest other hother

/-! ## Entering what nodes declare -/

/-- A step that does not depend on the table at all: it gives a value, or it reports a fault. -/
def Decided {α : Type} (step : TypeM α) : Prop :=
  (∃ a, step = pure a) ∨ ∃ fault, step = malformed fault

variable {α β : Type} {node : Node} {entries : List (String × TypeSource)}

/-- If a decided step does not stop everything, then it gives a value. -/
lemma Decided.exists_of_bind_eq_ok {step : TypeM α} (h : step.Decided) {next : α → TypeM β}
    {result : β × TypeTable} (hok : (step >>= next) table = .ok result) :
    ∃ a, step = pure a ∧ next a table = .ok result := by
  rcases h with ⟨a, rfl⟩ | ⟨fault, rfl⟩
  · exact ⟨a, rfl, hok⟩
  · cases hok

lemma require_of_child? {child : Node} {kind : NodeKind} (h : node.child? kind = some child)
    (fault : Malformed) : require node kind fault = pure child := by
  rw [require, h]

lemma require_of_child?_eq_none {kind : NodeKind} (h : node.child? kind = none) (fault : Malformed) :
    require node kind fault = malformed fault := by
  rw [require, h]

/-- If a child that is demanded does not stop everything, then it is there. -/
lemma exists_child?_of_require_bind {kind : NodeKind} {fault : Malformed} {next : Node → TypeM β}
    {result : β × TypeTable} (hok : (require node kind fault >>= next) table = .ok result) :
    ∃ child, node.child? kind = some child ∧ next child table = .ok result := by
  cases hchild : node.child? kind with
  | some child =>
    rw [require_of_child? hchild] at hok
    exact ⟨child, rfl, hok⟩
  | none =>
    rw [require_of_child?_eq_none hchild] at hok
    cases hok

lemma decided_declaratorName (declarator : Node) : (declaratorName declarator).Decided := by
  unfold declaratorName
  split
  · exact .inr ⟨_, rfl⟩
  · split
    · exact .inr ⟨_, rfl⟩
    · exact .inl ⟨_, rfl⟩

lemma decided_wordsName (specifiers : Node) : (wordsName specifiers).Decided := by
  unfold wordsName
  split
  · exact .inr ⟨_, rfl⟩
  · exact .inl ⟨_, rfl⟩

lemma decided_aliasName (aliased : Node) : (aliasName aliased).Decided := by
  unfold aliasName
  split
  · exact decided_wordsName _
  · cases hdeclarator : aliased.child? .typeDeclarator with
    | some declarator =>
      rw [require_of_child? hdeclarator, pure_bind]
      exact decided_declaratorName declarator
    | none =>
      rw [require_of_child?_eq_none hdeclarator]
      exact .inr ⟨_, rfl⟩

/-- Enters the name that a declarator gives to a type. -/
def enterDeclarator (scope : TypeScopeId) (specifiers declarator : Node) : TypeM Unit := do
  let name ← declaratorName declarator
  enter scope name ⟨specifiers, some declarator⟩

lemma enterDeclarators_eq {specifiers : Node} {declarators : List Node}
    (h : List.Forall₂ (fun declarator entry => declaratorName declarator = pure entry.1 ∧
      entry.2 = ⟨specifiers, some declarator⟩) declarators entries) (scope : TypeScopeId) :
    declarators.forM (enterDeclarator scope specifiers) = enterEach scope entries := by
  induction h with
  | nil => rfl
  | @cons declarator entry rest entries hfirst _ ih =>
    have hrest : (declarator :: rest).forM (enterDeclarator scope specifiers) =
      enterDeclarator scope specifiers declarator >>= fun _ =>
        rest.forM (enterDeclarator scope specifiers) := rfl
    rw [hrest, ih, enterEach_cons, enterDeclarator, hfirst.1, hfirst.2, pure_bind]

lemma exists_of_enterDeclarators {specifiers : Node} {declarators : List Node}
    (h : declarators.forM (enterDeclarator scope specifiers) table = .ok ((), table')) :
    ∃ entries : List (String × TypeSource),
      List.Forall₂ (fun declarator entry => declaratorName declarator = pure entry.1 ∧
        entry.2 = ⟨specifiers, some declarator⟩) declarators entries := by
  induction declarators generalizing table with
  | nil => exact ⟨[], .nil⟩
  | cons declarator rest ih =>
    obtain ⟨⟨⟨⟩, middle⟩, hfirst, hrest⟩ := exists_of_bind_eq_ok h
    obtain ⟨name, hname, -⟩ := (decided_declaratorName _).exists_of_bind_eq_ok hfirst
    obtain ⟨entries, hentries⟩ := ih hrest
    exact ⟨(name, _) :: entries, .cons ⟨hname, rfl⟩ hentries⟩

/-- Entering what a node declares is entering the names that it declares. -/
lemma enterDeclared_eq (h : node.Declares entries) (scope : TypeScopeId) :
    enterDeclared scope node = enterEach scope entries := by
  cases h with
  | «alias» hkind htarget haliased hspecifiers hname =>
    rw [enterDeclared, hkind, require_of_child? htarget, pure_bind, require_of_child? haliased,
      pure_bind, require_of_child? hspecifiers, pure_bind, hname, pure_bind, enterEach_cons]
    exact (bind_pure (enter _ _ _)).symm
  | typedef hkind hspecifiers hdeclarators hentries =>
    rw [enterDeclared, hkind, require_of_child? hspecifiers, pure_bind, require_of_child? hdeclarators,
      pure_bind]
    exact enterDeclarators_eq hentries scope
  | @declaration specifiers hkind hspecifiers =>
    rw [enterDeclared, hkind]
    dsimp only
    rw [require_of_child? hspecifiers, pure_bind]
    cases specifiers.children.head?.bind compoundName? with
    | some name => exact (bind_pure (enter _ _ _)).symm
    | none => rfl
  | other hkind =>
    unfold enterDeclared
    split
    · rename_i heq
      rw [heq] at hkind
      cases hkind
    · rename_i heq
      rw [heq] at hkind
      cases hkind
    · rename_i heq
      rw [heq] at hkind
      cases hkind
    · rfl

lemma enterAll_eq {nodes : List Node} {declared : List (List (String × TypeSource))}
    (h : List.Forall₂ Node.Declares nodes declared) (scope : TypeScopeId) :
    enterAll scope nodes = enterEach scope declared.flatten := by
  induction h with
  | nil => rfl
  | cons hfirst _ ih =>
    rw [List.flatten_cons, enterEach_append, ← ih, ← enterDeclared_eq hfirst]
    rfl

/-- If entering what a node declares succeeds, then it declares some names. -/
lemma exists_declares_of_enterDeclared (h : enterDeclared scope node table = .ok ((), table')) :
    ∃ entries, node.Declares entries := by
  by_cases halias : node.kind = .typeAlias
  · rw [enterDeclared, halias] at h
    obtain ⟨target, htarget, h⟩ := exists_child?_of_require_bind h
    obtain ⟨aliased, haliased, h⟩ := exists_child?_of_require_bind h
    obtain ⟨specifiers, hspecifiers, h⟩ := exists_child?_of_require_bind h
    obtain ⟨name, hname, -⟩ := (decided_aliasName _).exists_of_bind_eq_ok h
    exact ⟨_, .alias halias htarget haliased hspecifiers hname⟩
  by_cases htypedef : node.kind = .typeDef
  · rw [enterDeclared, htypedef] at h
    obtain ⟨specifiers, hspecifiers, h⟩ := exists_child?_of_require_bind h
    obtain ⟨declarators, hdeclarators, h⟩ := exists_child?_of_require_bind h
    obtain ⟨entries, hentries⟩ := exists_of_enterDeclarators h
    exact ⟨entries, .typedef htypedef hspecifiers hdeclarators hentries⟩
  by_cases hdeclaration : node.kind = .typeDeclaration
  · rw [enterDeclared, hdeclaration] at h
    obtain ⟨specifiers, hspecifiers, -⟩ := exists_child?_of_require_bind h
    exact ⟨_, .declaration hdeclaration hspecifiers⟩
  · refine ⟨[], .other ?_⟩
    cases hkind : node.kind <;> simp_all [NodeKind.isDefinition]

/-- **Entering what some nodes declare** is entering all names that they declare. -/
theorem enterAll_eq_ok_iff {nodes : List Node} :
    enterAll scope nodes table = .ok ((), table') ↔
      ∃ declared, List.Forall₂ Node.Declares nodes declared ∧
        enterEach scope declared.flatten table = .ok ((), table') := by
  constructor
  · intro h
    have hdeclared : ∃ declared, List.Forall₂ Node.Declares nodes declared := by
      unfold enterAll at h
      induction nodes generalizing table with
      | nil => exact ⟨[], .nil⟩
      | cons node rest ih =>
        obtain ⟨⟨⟨⟩, middle⟩, hfirst, hrest⟩ := exists_of_bind_eq_ok h
        obtain ⟨entries, hentries⟩ := exists_declares_of_enterDeclared hfirst
        obtain ⟨declared, hdeclared⟩ := ih hrest
        exact ⟨entries :: declared, .cons hentries hdeclared⟩
    obtain ⟨declared, hdeclared⟩ := hdeclared
    exact ⟨declared, hdeclared, enterAll_eq hdeclared scope ▸ h⟩
  · rintro ⟨declared, hdeclared, h⟩
    rwa [enterAll_eq hdeclared]

/-- Entering names into a scope that has none succeeds if no name is declared twice. -/
lemma enterAll_eq_ok_iff_of_fresh {nodes : List Node} (hscope : scope < table.scopes.size)
    (hfresh : ∀ name, table.lookup? scope name = none) :
    enterAll scope nodes table = .ok ((), table') ↔
      ∃ declared, List.Forall₂ Node.Declares nodes declared ∧
        (declared.flatten.map Prod.fst).Nodup ∧ table' = table.entered scope declared.flatten := by
  rw [enterAll_eq_ok_iff]
  refine exists_congr fun declared => and_congr_right fun _ => ?_
  rw [enterEach_eq_ok_iff hscope]
  exact and_congr_right fun _ => and_iff_right fun entry _ => hfresh entry.1

end TypeM

end CommonTrace
