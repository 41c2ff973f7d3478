import CommonTrace.Proofs.Schema.Likeness
import CommonTrace.Proofs.Schema.Names

/-!
# Names of rearranged nodes

Rearranged nodes declare the same names, in another order and for types that are rearranged themselves
(`Node.Rearranged.exists_declareAll`).  When the names have been entered, the order is gone: the tables differ
only in the nodes of types that are still to be built (`TypeTable.Alike`).
-/

namespace CommonTrace

open Tsdl

/-! ## Names of rearranged nodes -/

/-- Sources of types that are the same but for the places of definitions in them. -/
structure TypeSource.Like (source source' : TypeSource) : Prop where
  specifiers : source.specifiers.Rearranged source'.specifiers
  declarator : Option.Rel Node.Rearranged source.declarator source'.declarator

/-- The same name for like sources. -/
def LikeEntry (entry entry' : String × TypeSource) : Prop :=
  entry.1 = entry'.1 ∧ entry.2.Like entry'.2

namespace Tsdl.Node

variable {node node' : Node} {nodes nodes' : List Node} {entries : List (String × TypeSource)}

open TypeM

lemma Rearranged.rel_child? (h : node.Rearranged node') {kind : NodeKind}
    (hkind : kind.isDefinition = false) :
    Option.Rel Rearranged (node.child? kind) (node'.child? kind) := by
  rcases h.child? hkind with ⟨hnone, hnone'⟩ | ⟨child, child', hsome, hsome', hsame⟩
  · rw [hnone, hnone']
    exact .none
  · rw [hsome, hsome']
    exact .some hsame

/-- A child that is there in one of two rearranged nodes is there in the other. -/
lemma Rearranged.exists_child? (h : node.Rearranged node') {kind : NodeKind} {child : Node}
    (hchild : node.child? kind = some child) (hkind : kind.isDefinition = false) :
    ∃ child', node'.child? kind = some child' ∧ child.Rearranged child' := by
  have hrel := h.rel_child? hkind
  rw [hchild] at hrel
  generalize hchild' : node'.child? kind = other at hrel
  cases hrel with
  | some hsame => exact ⟨_, rfl, hsame⟩

lemma exists_declarators {specifiers specifiers' : Node} {declarators declarators' : List Node}
    (hspecifiers : specifiers.Rearranged specifiers')
    (h : List.Forall₂ Rearranged declarators declarators')
    (hentries : List.Forall₂ (fun declarator entry => declaratorName declarator = pure entry.1 ∧
      entry.2 = ⟨specifiers, some declarator⟩) declarators entries) :
    ∃ entries' : List (String × TypeSource),
      List.Forall₂ (fun declarator entry => declaratorName declarator = pure entry.1 ∧
        entry.2 = ⟨specifiers', some declarator⟩) declarators' entries' ∧
      List.Forall₂ LikeEntry entries entries' := by
  induction h generalizing entries with
  | nil =>
    cases hentries
    exact ⟨[], .nil, .nil⟩
  | @cons declarator declarator' declarators declarators' hfirst _ ih =>
    cases hentries with
    | @cons _ entry _ entries hname hrest =>
      obtain ⟨entries', hentries', hlike⟩ := ih hrest
      refine ⟨(entry.1, ⟨specifiers', some declarator'⟩) :: entries', .cons ⟨?_, rfl⟩ hentries',
        .cons ⟨rfl, ?_⟩ hlike⟩
      · rw [← declaratorName_eq hfirst]
        exact hname.1
      · rw [hname.2]
        exact ⟨hspecifiers, .some hfirst⟩

/-- Rearranged nodes declare the same names. -/
lemma Declares.exists_of_rearranged (h : node.Declares entries) (hlike : node.Rearranged node') :
    ∃ entries', node'.Declares entries' ∧ List.Forall₂ LikeEntry entries entries' := by
  have hkind_eq := hlike.kind_eq
  cases h with
  | «alias» hkind htarget haliased hspecifiers hname =>
    obtain ⟨target', htarget', htargets⟩ := hlike.exists_child? htarget rfl
    obtain ⟨aliased', haliased', haliases⟩ := hlike.exists_child? haliased rfl
    obtain ⟨specifiers', hspecifiers', hsame⟩ := htargets.exists_child? hspecifiers rfl
    refine ⟨_, .alias (hkind_eq ▸ hkind) htarget' haliased' hspecifiers' ?_, .cons ⟨rfl, ?_⟩ .nil⟩
    · rw [← aliasName_eq haliases]
      exact hname
    · exact ⟨hsame, htargets.rel_child? rfl⟩
  | typedef hkind hspecifiers hdeclarators hentries =>
    obtain ⟨specifiers', hspecifiers', hsame⟩ := hlike.exists_child? hspecifiers rfl
    obtain ⟨declarators', hdeclarators', hlist⟩ := hlike.exists_child? hdeclarators rfl
    obtain ⟨entries', hentries', hlikes⟩ := exists_declarators hsame (hlist.childrenOf rfl) hentries
    exact ⟨entries', .typedef (hkind_eq ▸ hkind) hspecifiers' hdeclarators' hentries', hlikes⟩
  | @declaration specifiers hkind hspecifiers =>
    obtain ⟨specifiers', hspecifiers', hsame⟩ := hlike.exists_child? hspecifiers rfl
    refine ⟨_, .declaration (hkind_eq ▸ hkind) hspecifiers', ?_⟩
    have hchildren := hsame.children (by rw [kind_of_child? hspecifiers]; rfl)
    have hname : specifiers.children.head?.bind compoundName? =
        specifiers'.children.head?.bind compoundName? := by
      generalize specifiers.children = children, specifiers'.children = children' at hchildren
      cases hchildren with
      | nil => rfl
      | cons hfirst _ => exact compoundName?_eq hfirst
    rw [hname]
    cases specifiers'.children.head?.bind compoundName? with
    | none => exact .nil
    | some name => exact .cons ⟨rfl, hsame, .none⟩ .nil
  | other hkind => exact ⟨[], .other (hkind_eq ▸ hkind), .nil⟩

/-- The names that some nodes declare. -/
def DeclareAll (nodes : List Node) (entries : List (String × TypeSource)) : Prop :=
  ∃ declared, List.Forall₂ Declares nodes declared ∧ entries = declared.flatten

lemma declareAll_nil : DeclareAll [] entries ↔ entries = [] := by
  constructor
  · rintro ⟨_, ⟨⟩, rfl⟩
    rfl
  · rintro rfl
    exact ⟨[], .nil, rfl⟩

lemma declareAll_cons : DeclareAll (node :: nodes) entries ↔
    ∃ first rest, node.Declares first ∧ DeclareAll nodes rest ∧ entries = first ++ rest := by
  constructor
  · rintro ⟨_, h, rfl⟩
    cases h with
    | cons hfirst hrest => exact ⟨_, _, hfirst, ⟨_, hrest, rfl⟩, rfl⟩
  · rintro ⟨first, _, hfirst, ⟨declared, hrest, rfl⟩, rfl⟩
    exact ⟨first :: declared, .cons hfirst hrest, rfl⟩

/-- Only definitions declare names. -/
lemma declareAll_definitions : DeclareAll (definitions nodes) entries ↔ DeclareAll nodes entries := by
  induction nodes generalizing entries with
  | nil => rfl
  | cons node rest ih =>
    rw [definitions, List.filter_cons, declareAll_cons]
    cases hkind : node.kind.isDefinition with
    | true =>
      rw [if_pos rfl, declareAll_cons]
      exact exists_congr fun _ => exists_congr fun _ => and_congr_right fun _ => and_congr_left fun _ => ih
    | false =>
      rw [if_neg (by decide)]
      refine Iff.trans ih ⟨fun h => ⟨[], entries, .other hkind, h, rfl⟩, ?_⟩
      rintro ⟨first, rest, hfirst, hrest, rfl⟩
      rwa [hfirst.eq_nil hkind]

lemma DeclareAll.perm (h : DeclareAll nodes entries) (hperm : nodes.Perm nodes') :
    ∃ entries', DeclareAll nodes' entries' ∧ entries.Perm entries' := by
  obtain ⟨declared, hdeclared, rfl⟩ := h
  have hcomp : Relation.Comp List.Perm (List.Forall₂ Declares) nodes' declared :=
    ⟨nodes, hperm.symm, hdeclared⟩
  rw [← List.forall₂_comp_perm_eq_perm_comp_forall₂] at hcomp
  obtain ⟨declared', hdeclared', hperm'⟩ := hcomp
  exact ⟨_, ⟨declared', hdeclared', rfl⟩, hperm'.symm.flatten⟩

lemma DeclareAll.exists_of_rearranged (h : DeclareAll nodes entries)
    (hlike : List.Forall₂ Rearranged nodes nodes') :
    ∃ entries', DeclareAll nodes' entries' ∧ List.Forall₂ LikeEntry entries entries' := by
  induction hlike generalizing entries with
  | nil =>
    cases declareAll_nil.mp h
    exact ⟨[], declareAll_nil.mpr rfl, .nil⟩
  | cons hfirst _ ih =>
    obtain ⟨first, rest, hentries, hrest, rfl⟩ := declareAll_cons.mp h
    obtain ⟨first', hentries', hlike⟩ := hentries.exists_of_rearranged hfirst
    obtain ⟨rest', hrest', hlikes⟩ := ih hrest
    exact ⟨_, declareAll_cons.mpr ⟨first', rest', hentries', hrest', rfl⟩, List.rel_append hlike hlikes⟩

/-- **Rearranged nodes declare the same names for like types**, in some order. -/
lemma Rearranged.exists_declareAll (h : node.Rearranged node')
    (hentries : DeclareAll node.children entries) :
    ∃ moved entries', DeclareAll node'.children entries' ∧ entries.Perm moved ∧
      List.Forall₂ LikeEntry moved entries' := by
  obtain ⟨nodes, hperm, hdefinitions⟩ := h.exists_definitions
  obtain ⟨moved, hmoved, hentries⟩ := (declareAll_definitions.mpr hentries).perm hperm
  obtain ⟨entries', hentries', hlike⟩ := hmoved.exists_of_rearranged hdefinitions
  exact ⟨moved, entries', declareAll_definitions.mp hentries', hentries, hlike⟩

end Tsdl.Node

/-! ## Tables -/

lemma exists_mem_of_forall₂ {α β : Type} {R : α → β → Prop} {as : List α} {bs : List β} {a : α}
    (h : List.Forall₂ R as bs) (ha : a ∈ as) : ∃ b ∈ bs, R a b := by
  induction h with
  | nil => cases ha
  | cons hfirst _ ih =>
    rcases List.mem_cons.mp ha with rfl | ha
    · exact ⟨_, List.mem_cons_self, hfirst⟩
    · obtain ⟨b, hb, hab⟩ := ih ha
      exact ⟨b, List.mem_cons_of_mem _ hb, hab⟩

lemma map_fst_eq {entries entries' : List (String × TypeSource)}
    (h : List.Forall₂ LikeEntry entries entries') :
    entries.map Prod.fst = entries'.map Prod.fst := by
  have hnames : List.Forall₂ Eq (entries.map Prod.fst) (entries'.map Prod.fst) := by
    rw [List.forall₂_map_left_iff, List.forall₂_map_right_iff]
    exact h.imp fun _ _ hsame => hsame.1
  rwa [List.forall₂_eq_eq_eq] at hnames

/-- Entries that are the same but for the nodes of a type that is still to be built. -/
inductive TypeEntry.Like : TypeEntry → TypeEntry → Prop
  | pending {source source' : TypeSource} (h : source.Like source')
      (hkind : source.specifiers.kind = .typeSpecifierList) : Like (.pending source) (.pending source')
  | inProgress : Like .inProgress .inProgress
  | built (t : FieldType) : Like (.built t) (.built t)

lemma TypeEntry.Like.symm {entry entry' : TypeEntry} (h : entry.Like entry') : entry'.Like entry := by
  cases h with
  | @pending source source' h hkind =>
    refine .pending ⟨h.specifiers.symm, ?_⟩ (h.specifiers.kind_eq ▸ hkind)
    have hdeclarator := h.declarator
    generalize source.declarator = declarator, source'.declarator = declarator' at hdeclarator
    cases hdeclarator with
    | none => exact .none
    | some h => exact .some h.symm
  | inProgress => exact .inProgress
  | built t => exact .built t

namespace TypeTable

/-- **Tables that are the same but for the nodes of types that are still to be built.** -/
structure Alike (table table' : TypeTable) : Prop where
  native_eq : table.native = table'.native
  clocks_eq : table.clocks = table'.clocks
  warnings_eq : table.warnings = table'.warnings
  size_eq : table.scopes.size = table'.scopes.size
  parent_eq : ∀ scope, table.parent? scope = table'.parent? scope
  entry : ∀ scope name, Option.Rel TypeEntry.Like (table.lookup? scope name) (table'.lookup? scope name)
  ordered : table.Ordered
  ordered' : table'.Ordered

namespace Alike

variable {table table' : TypeTable} {scope parent : TypeScopeId} {name : String}
  {nodes nodes' : List Node}
  {entry entry' : TypeEntry} {entries moved entries' : List (String × TypeSource)}

lemma empty (native : ByteOrder) : (TypeTable.empty native).Alike (.empty native) where
  native_eq := rfl
  clocks_eq := rfl
  warnings_eq := rfl
  size_eq := rfl
  parent_eq _ := rfl
  entry scope name := by
    rw [lookup?_empty]
    exact .none
  ordered := .empty native
  ordered' := .empty native

lemma note (h : table.Alike table') (notes : Notes) : (table.note notes).Alike (table'.note notes) :=
  { h with
    clocks_eq := congrArg (· ++ notes.clocks) h.clocks_eq
    warnings_eq := congrArg (· ++ notes.warnings) h.warnings_eq
    ordered := h.ordered.note notes
    ordered' := h.ordered'.note notes }

lemma setEntry (h : table.Alike table') (scope : TypeScopeId) (name : String)
    (hentry : entry.Like entry') :
    (table.setEntry scope name entry).Alike (table'.setEntry scope name entry') where
  native_eq := h.native_eq
  clocks_eq := h.clocks_eq
  warnings_eq := h.warnings_eq
  size_eq := by rw [size_setEntry, size_setEntry, h.size_eq]
  parent_eq scope' := by rw [parent?_setEntry, parent?_setEntry, h.parent_eq]
  entry scope' name' := by
    rw [lookup?_setEntry, lookup?_setEntry, h.size_eq]
    split
    · exact .some hentry
    · exact h.entry scope' name'
  ordered := h.ordered.setEntry scope name entry
  ordered' := h.ordered'.setEntry scope name entry'

lemma opened (h : table.Alike table') (hparent : parent < table.scopes.size) :
    (table.opened parent).Alike (table'.opened parent) where
  native_eq := h.native_eq
  clocks_eq := h.clocks_eq
  warnings_eq := h.warnings_eq
  size_eq := by rw [size_opened, size_opened, h.size_eq]
  parent_eq scope := by rw [parent?_opened, parent?_opened, h.size_eq, h.parent_eq]
  entry scope name := by
    rw [lookup?_opened, lookup?_opened]
    exact h.entry scope name
  ordered := h.ordered.opened hparent
  ordered' := h.ordered'.opened (h.size_eq ▸ hparent)

/-- Names of like nodes are found alike when they have been entered, in whatever order. -/
lemma entered (h : table.Alike table') (hscope : scope < table.scopes.size)
    (hfresh : ∀ name, table.lookup? scope name = none) (hmoved : entries.Perm moved)
    (hlike : List.Forall₂ LikeEntry moved entries') (hnodup : (entries.map Prod.fst).Nodup)
    (hkind : ∀ entry ∈ entries, entry.2.specifiers.kind = .typeSpecifierList) :
    (table.entered scope entries).Alike (table'.entered scope entries') := by
  have hperm := hmoved.map Prod.fst
  rw [map_fst_eq hlike] at hperm
  have hscope' : scope < table'.scopes.size := h.size_eq ▸ hscope
  refine ⟨?_, ?_, ?_, ?_, fun scope' => ?_, fun scope' name => ?_, h.ordered.entered scope entries,
    h.ordered'.entered scope entries'⟩
  · rw [native_entered, native_entered, h.native_eq]
  · rw [clocks_entered, clocks_entered, h.clocks_eq]
  · rw [warnings_entered, warnings_entered, h.warnings_eq]
  · rw [size_entered, size_entered, h.size_eq]
  · rw [parent?_entered, parent?_entered, h.parent_eq]
  by_cases hsame : scope' = scope
  · subst hsame
    by_cases hmem : name ∈ entries.map Prod.fst
    · obtain ⟨⟨_, source⟩, hentry, rfl⟩ := List.mem_map.mp hmem
      obtain ⟨⟨_, source'⟩, hentry', rfl, hsource⟩ := exists_mem_of_forall₂ hlike (hmoved.mem_iff.mp hentry)
      rw [lookup?_entered_of_mem hscope hnodup hentry,
        lookup?_entered_of_mem hscope' (hperm.nodup_iff.mp hnodup) hentry']
      exact .some (.pending hsource (hkind _ hentry))
    · rw [lookup?_entered_of_notMem hmem, lookup?_entered_of_notMem fun h => hmem (hperm.mem_iff.mpr h)]
      exact h.entry scope' name
  · rw [lookup?_entered_of_ne _ _ _ hsame, lookup?_entered_of_ne _ _ _ hsame]
    exact h.entry scope' name

/-- Rearranged nodes can be entered together. -/
lemma exists_entered (h : table.Alike table') (hscope : scope < table.scopes.size)
    (hfresh : ∀ name, table.lookup? scope name = none) {node node' : Node}
    (hlike : node.Rearranged node') {declared : List (List (String × TypeSource))}
    (hdeclared : List.Forall₂ Node.Declares node.children declared)
    (hnodup : (declared.flatten.map Prod.fst).Nodup) :
    ∃ declared', List.Forall₂ Node.Declares node'.children declared' ∧
      (declared'.flatten.map Prod.fst).Nodup ∧
      (table.entered scope declared.flatten).Alike (table'.entered scope declared'.flatten) := by
  obtain ⟨moved, _, ⟨declared', hdeclared', rfl⟩, hmoved, hlikes⟩ :=
    hlike.exists_declareAll ⟨declared, hdeclared, rfl⟩
  have hperm := hmoved.map Prod.fst
  rw [map_fst_eq hlikes] at hperm
  exact ⟨declared', hdeclared', hperm.nodup_iff.mp hnodup,
    h.entered hscope hfresh hmoved hlikes hnodup fun entry => Node.kind_of_declared hdeclared⟩

lemma outwards_eq (h : table.Alike table') (depth : ℕ) (scope : TypeScopeId) :
    table.outwards depth scope = table'.outwards depth scope := by
  have hparents (scope : TypeScopeId) : table.scopes[scope]?.bind TypeScope.parent =
      table'.scopes[scope]?.bind TypeScope.parent := h.parent_eq scope
  induction depth generalizing scope with
  | zero => rfl
  | succ depth ih =>
    rw [outwards, outwards, hparents]
    simp only [ih]

/-- A name is found in the same scope, with like entries. -/
lemma nearest? (h : table.Alike table') (scope : TypeScopeId) (name : String) :
    Option.Rel (fun found found' => found.1 = found'.1 ∧ found.2.Like found'.2)
      (table.nearest? scope name) (table'.nearest? scope name) := by
  rw [TypeTable.nearest?, TypeTable.nearest?, h.size_eq, h.outwards_eq]
  generalize table'.outwards table'.scopes.size scope = scopes
  induction scopes with
  | nil => exact .none
  | cons id rest ih =>
    have hentry := h.entry id name
    rw [List.findSome?_cons, List.findSome?_cons]
    generalize table.lookup? id name = entry, table'.lookup? id name = entry' at hentry
    cases hentry with
    | none => exact ih
    | some hlike => exact .some ⟨rfl, hlike⟩

/-- The same names are in a scope. -/
lemma names_eq (h : table.Alike table') (scope : TypeScopeId) :
    table.names scope = table'.names scope := by
  refine h.ordered.names_eq h.ordered' fun name => ?_
  have hentry := h.entry scope name
  generalize table.lookup? scope name = entry, table'.lookup? scope name = entry' at hentry ⊢
  cases hentry <;> rfl

lemma symm (h : table.Alike table') : table'.Alike table where
  native_eq := h.native_eq.symm
  clocks_eq := h.clocks_eq.symm
  warnings_eq := h.warnings_eq.symm
  size_eq := h.size_eq.symm
  parent_eq scope := (h.parent_eq scope).symm
  entry scope name := by
    have hentry := h.entry scope name
    generalize table.lookup? scope name = entry, table'.lookup? scope name = entry' at hentry
    cases hentry with
    | none => exact .none
    | some hlike => exact .some hlike.symm
  ordered := h.ordered'
  ordered' := h.ordered

end Alike

end TypeTable

end CommonTrace
