import CommonTrace.Proofs.Schema.Binding
import CommonTrace.Proofs.Schema.DefinitionOrder
import CommonTrace.Proofs.Schema.Readings

/-!
# The order of events

Events refer to types that are declared beside the blocks, and such a type is built when the first of them
refers to it.  With the events exchanged, types become known in another order.  Still the tree is accepted if
it was before, and it describes the same metadata up to the order of warnings (`Metadata.ofTree_exchanged`).

This takes a condition, `Tsdl.Node.Overt`.  A structure with a name and a body may stand inside a definition,
and it becomes known by its name when the definition has been built, not before.  An event that refers to it
has to come behind one that uses the definition (`not_forall_exchanged`).
-/

namespace CommonTrace

open Tsdl TypeTable

/-! ## Trees -/

namespace Tsdl.Node

/-- **The same tree with its events in another order.**  The events under the root may be moved, past each
other and past the nodes between them, and these nodes stay in order. -/
structure Reordered (root root' : Node) : Prop where
  kind_eq : root'.kind = root.kind
  others_eq : otherNodes root'.children = otherNodes root.children
  events_perm : (eventNodes root'.children).Perm (eventNodes root.children)

/-- **Events are exchanged among themselves**: every other node under the root stays where it is. -/
structure Exchanged (root root' : Node) : Prop where
  kind_eq : root'.kind = root.kind
  text_eq : root'.text = root.text
  perm : root'.children.Perm root.children
  places : List.Forall₂ (fun node node' => node' = node ∨ node.kind = .event ∧ node'.kind = .event)
    root.children root'.children

/-- **No specifiers refer to a compound type that is described inside a definition beside the blocks**, unless
its name is declared there as well. -/
def Overt (root : Node) : Prop :=
  ∀ entries, DeclareAll root.children entries → ∀ specifiers, root.Contains specifiers →
    specifiers.kind = .typeSpecifierList → ∀ name, specifiers.Refers name →
    (∃ entry ∈ entries, entry.2.specifiers.Brings name) → name ∈ entries.map Prod.fst

namespace Reordered

variable {root root' : Node} {entries : List (String × TypeSource)}

lemma of_exchanged (h : root.Exchanged root') : root.Reordered root' where
  kind_eq := h.kind_eq
  others_eq := by
    have hplaces := h.places
    generalize root.children = nodes, root'.children = nodes' at hplaces
    induction hplaces with
    | nil => rfl
    | @cons _ node' _ _ hfirst _ ih =>
      rcases hfirst with rfl | ⟨hkind, hkind'⟩
      · by_cases hkind : node'.kind = .event
        · rw [otherNodes_cons_of_event hkind, otherNodes_cons_of_event hkind, ih]
        · rw [otherNodes_cons_of_ne hkind, otherNodes_cons_of_ne hkind, ih]
      · rw [otherNodes_cons_of_event hkind, otherNodes_cons_of_event hkind', ih]
  events_perm := h.perm.filter _

lemma symm (h : root.Reordered root') : root'.Reordered root :=
  ⟨h.kind_eq.symm, h.others_eq.symm, h.events_perm.symm⟩

lemma child?_eq (h : root.Reordered root') {kind : NodeKind} (hkind : kind ≠ .event) :
    root'.child? kind = root.child? kind := by
  have hothers (node : Node) : node.child? kind = (otherNodes node.children).find? (·.kind = kind) := by
    have hsame (child : Node) :
        decide (decide (child.kind ≠ .event) = true ∧ decide (child.kind = kind) = true) =
          decide (child.kind = kind) := by
      by_cases hchild : child.kind = kind <;> simp [hchild, hkind]
    rw [otherNodes, List.find?_filter, funext hsame, child?]
  rw [hothers, hothers, h.others_eq]

lemma mem_children_iff (h : root.Reordered root') {node : Node} :
    node ∈ root'.children ↔ node ∈ root.children := by
  have hsplit (nodes : List Node) : node ∈ nodes ↔ node ∈ otherNodes nodes ∨ node ∈ eventNodes nodes := by
    by_cases hkind : node.kind = .event <;> simp [otherNodes, eventNodes, List.mem_filter, hkind]
  rw [hsplit root'.children, hsplit root.children, h.others_eq, h.events_perm.mem_iff]

lemma declareAll_iff (h : root.Reordered root') :
    DeclareAll root'.children entries ↔ DeclareAll root.children entries := by
  have hothers (nodes : List Node) : definitions nodes = definitions (otherNodes nodes) := by
    rw [definitions, definitions, otherNodes, List.filter_filter]
    refine List.filter_congr fun node _ => ?_
    cases hkind : node.kind <;> simp [NodeKind.isDefinition]
  rw [← declareAll_definitions, hothers, h.others_eq, ← hothers, declareAll_definitions]

lemma contains_iff (h : root.Reordered root') {node : Node} (hkind : node.kind ≠ root.kind) :
    root'.Contains node ↔ root.Contains node := by
  have hchildren {root : Node} (hkind : node.kind ≠ root.kind) :
      root.Contains node ↔ ∃ child ∈ root.children, child.Contains node := by
    constructor
    · intro hcontains
      cases hcontains with
      | refl => exact absurd rfl hkind
      | child hchild hcontains => exact ⟨_, hchild, hcontains⟩
    · rintro ⟨child, hchild, hcontains⟩
      exact .child hchild hcontains
  rw [hchildren hkind, hchildren (h.kind_eq ▸ hkind)]
  exact exists_congr fun child => and_congr_left fun _ => h.mem_children_iff

lemma overt (h : root.Reordered root') (hkind : root.kind = .root) (hovert : root.Overt) :
    root'.Overt := by
  intro entries hdeclare specifiers hcontains hspecifiers
  refine hovert entries (h.declareAll_iff.mp hdeclare) specifiers
    ((h.contains_iff ?_).mp hcontains) hspecifiers
  rw [hspecifiers, hkind]
  nofun

end Reordered

end Tsdl.Node

namespace Globals

variable {g : Globals}

/-- The names of the whole metadata have been entered. -/
lemma fit_entered (g : Globals) : g.Fit 1 ((TypeTable.empty g.native).entered rootScope g.entries) where
  toOrdered := (Ordered.empty g.native).entered _ _
  native_eq := native_entered _ _ _
  floor_pos := Nat.one_pos
  floor_le := by
    rw [size_entered]
    exact Nat.le_refl _
  parent scope parent hscope hparent := by
    rw [parent?_entered] at hparent
    cases scope with
    | zero => cases hscope
    | succ scope => cases hparent
  source scope name source hlookup := by
    rcases lookup?_entered_cases (TypeTable.empty g.native) rootScope g.entries scope name with
      heq | ⟨entry, hentry, heq⟩
    · rw [heq, lookup?_empty] at hlookup
      cases hlookup
    · rw [heq] at hlookup
      cases hlookup
      exact describes_of_mem hentry
  declared name source hmem := .inl (lookup?_entered_of_mem Nat.one_pos g.nodup hmem)
  other name entry hname hlookup := by
    rw [lookup?_entered_of_notMem hname, lookup?_empty] at hlookup
    cases hlookup

/-- No types are known yet. -/
lemma not_built_entered (g : Globals) (name : String) (t : FieldType) :
    ((TypeTable.empty g.native).entered rootScope g.entries).lookup? rootScope name ≠ some (.built t) := by
  rcases lookup?_entered_cases (TypeTable.empty g.native) rootScope g.entries rootScope name with
    heq | ⟨entry, -, heq⟩
  · rw [heq, lookup?_empty]
    nofun
  · rw [heq]
    nofun

end Globals

namespace Metadata

/-- Metadata that is the same up to the order of warnings. -/
structure Alike (metadata metadata' : Metadata) : Prop where
  eq : metadata' = { metadata with warnings := metadata'.warnings }
  warnings : metadata'.warnings.Perm metadata.warnings

variable {root root' : Node}

lemma ofRead_alike {byteOrder : ByteOrder} {read read' : Blocks × List Warning}
    {table table' : TypeTable} (h : Globals.ReadAlike read read' table table') {metadata : Metadata}
    (hok : ofRead byteOrder (read, table) = .ok metadata) :
    ∃ metadata', ofRead byteOrder (read', table') = .ok metadata' ∧ metadata.Alike metadata' := by
  obtain ⟨hblocks, hevents, hpassed, hclocks, hwarnings⟩ := h
  obtain ⟨⟨⟩, hcheck, hok⟩ := exists_of_bind_eq_ok hok
  obtain ⟨streams, hbind, hok⟩ := exists_of_bind_eq_ok hok
  obtain ⟨⟨⟩, hpaths, hok⟩ := exists_of_bind_eq_ok hok
  cases hok
  have hcheck' : checkClocks read'.1.clocks table'.clocks.toList = .ok () := by
    rw [hblocks]
    exact checkClocks_eq_ok_iff.mpr fun name hname =>
      checkClocks_eq_ok_iff.mp hcheck name (hclocks.mem_iff.mp hname)
  have hbind' : bindEvents read'.1.streams read'.1.events = .ok streams := by
    have hstreams : read'.1.streams = read.1.streams := by
      rw [hblocks]
      rfl
    rw [hstreams]
    exact bindEvents_perm hevents.symm hbind
  have hsame : ofBlocks byteOrder read'.1 streams (read'.2 ++ table'.warnings.toList) =
      { ofBlocks byteOrder read.1 streams (read.2 ++ table.warnings.toList) with
        warnings := read'.2 ++ table'.warnings.toList } := by
    rw [hblocks]
    rfl
  have hpaths' : (ofBlocks byteOrder read'.1 streams (read'.2 ++ table'.warnings.toList)).checkPaths =
      .ok () := by
    rw [hsame]
    exact hpaths
  refine ⟨ofBlocks byteOrder read'.1 streams (read'.2 ++ table'.warnings.toList), ?_, hsame, ?_⟩
  · simp only [ofRead, hcheck', hbind', hpaths', bind, Except.bind, pure, Except.pure]
  · exact hpassed.append hwarnings

lemma traceByteOrder?_eq_of_reordered (h : root.Reordered root') :
    traceByteOrder? root' = traceByteOrder? root := by
  have hkind : NodeKind.trace ≠ .event := nofun
  rw [traceByteOrder?, traceByteOrder?, h.child?_eq hkind]

/-- If the names of a tree can be entered, so can those of the tree with its events in another order. -/
lemma exists_globals (h : root.Reordered root') {native : ByteOrder} {table : TypeTable}
    (hok : TypeM.enterAll rootScope root.children (.empty native) = .ok ((), table)) :
    ∃ g : Globals, g.root = root ∧ table = (TypeTable.empty g.native).entered rootScope g.entries ∧
      TypeM.enterAll rootScope root'.children (.empty native) = .ok ((), table) := by
  have hscope : rootScope < (TypeTable.empty native).scopes.size := Nat.one_pos
  have hfresh := lookup?_empty native rootScope
  obtain ⟨declared, hdeclared, hnodup, rfl⟩ := (TypeM.enterAll_eq_ok_iff_of_fresh hscope hfresh).mp hok
  obtain ⟨declared', hdeclared', hsame⟩ := h.declareAll_iff.mpr ⟨declared, hdeclared, rfl⟩
  refine ⟨⟨root, native, declared.flatten, ⟨declared, hdeclared, rfl⟩, hnodup⟩, rfl, rfl, ?_⟩
  rw [hsame] at hnodup ⊢
  exact (TypeM.enterAll_eq_ok_iff_of_fresh hscope hfresh).mpr ⟨declared', hdeclared', hnodup, rfl⟩

lemma kind_of_ofTree {metadata : Metadata} (hok : ofTree root = .ok metadata) : root.kind = .root := by
  by_contra hkind
  rw [ofTree_eq_ofTreeWithin, ofTreeWithin_of_kind_ne hkind] at hok
  cases hok

lemma exists_ofTree_of_reordered (h : root.Reordered root') (hovert : root.Overt) {metadata : Metadata}
    (hok : ofTree root = .ok metadata) :
    ∃ metadata', ofTree root' = .ok metadata' ∧ metadata.Alike metadata' := by
  have hconclusive := conclusive_ofTree root'
  rw [← ofTreeWithin_eq_ofTree (Nat.le_max_left root.weight root'.weight)] at hok
  rw [← ofTreeWithin_eq_ofTree (Nat.le_max_right root.weight root'.weight)] at hconclusive ⊢
  generalize max root.weight root'.weight = depth at hok hconclusive ⊢
  by_cases hkind : root.kind = .root
  · rw [ofTreeWithin_of_kind_eq hkind] at hok
    rw [ofTreeWithin_of_kind_eq (h.kind_eq.trans hkind), traceByteOrder?_eq_of_reordered h] at hconclusive ⊢
    obtain ⟨declared, hdeclared, hok⟩ := exists_of_bind_eq_ok hok
    obtain ⟨⟨read, finish⟩, hread, hlast⟩ := exists_of_bind_eq_ok hok
    rw [BlockM.readAllWithin_apply] at hread
    obtain ⟨⟨⟨⟩, table⟩, henter, hread⟩ := exists_of_bind_eq_ok hread
    obtain ⟨g, rfl, rfl, henter'⟩ := exists_globals h henter
    have hall : BlockM.readAllWithin depth root' (assumed declared)
        (.empty (declared.getD .little)) =
      BlockM.readEnteredWithin depth root' (assumed declared)
          ((TypeTable.empty g.native).entered rootScope g.entries) := by
      rw [BlockM.readAllWithin_apply, henter']
      rfl
    have hfound {α : Type} (next : Option ByteOrder → Except SchemaError α) :
        Except.ok declared >>= next = next declared := rfl
    rw [hdeclared, hfound, hall] at hconclusive ⊢
    rcases Globals.readEntered_reordered (hovert g.entries g.declareAll) g.fit_entered
      (fun name _ => g.not_built_entered name) h.others_eq h.events_perm hread with
      hstopped | ⟨read', finish', hread', halike⟩
    · rw [hstopped] at hconclusive
      exact absurd rfl hconclusive
    · rw [hread']
      exact ofRead_alike halike hlast
  · rw [ofTreeWithin_of_kind_ne hkind] at hok
    cases hok

/-- **The order of events does not matter** in a tree in which no specifiers refer to a compound type that is
described inside a definition beside the blocks: both trees are accepted or none is, and they describe the same
metadata up to the order of warnings. -/
theorem ofTree_reordered (h : root.Reordered root') (hovert : root.Overt) :
    Option.Rel Alike (ofTree root).toOption (ofTree root').toOption := by
  cases hok : ofTree root with
  | ok metadata =>
    obtain ⟨metadata', hok', halike⟩ := exists_ofTree_of_reordered h hovert hok
    rw [hok']
    exact .some halike
  | error e =>
    cases hok' : ofTree root' with
    | error e' => exact .none
    | ok metadata' =>
      have hkind : root.kind = .root := h.kind_eq ▸ kind_of_ofTree hok'
      obtain ⟨metadata, hother, -⟩ := exists_ofTree_of_reordered h.symm (h.overt hkind hovert) hok'
      rw [hok] at hother
      cases hother

/-- **It does not matter in which order events are declared**, if no specifiers refer to a compound type that is
described inside a definition beside the blocks: with the events exchanged, the tree is accepted if it was, and
describes the same metadata up to the order of warnings. -/
theorem ofTree_exchanged (h : root.Exchanged root') (hovert : root.Overt) :
    Option.Rel Alike (ofTree root).toOption (ofTree root').toOption :=
  ofTree_reordered (.of_exchanged h) hovert

end Metadata

/-! ## Two events -/

open Node in
/-- An event with an id and a single field. -/
def eventWith (name id : String) (specifier : Node) : Node :=
  block .event
    [value "name" (word .unaryString name), value "id" (word .unaryDec id),
      type "fields" (struct [member specifier "at" []])]

/-- Two events whose fields have the type of a name. -/
def twoCounts (first second : String) : Node :=
  .block .root [integerAlias "count_t" "8", eventWith first first (.word .typeName "count_t"),
    eventWith second second (.word .typeName "count_t")]

lemma twoCounts_exchanged : (twoCounts "0" "1").Exchanged (twoCounts "1" "0") where
  kind_eq := rfl
  text_eq := rfl
  perm := .cons _ (.swap _ _ _)
  places := .cons (.inl rfl) (.cons (.inr ⟨rfl, rfl⟩) (.cons (.inr ⟨rfl, rfl⟩) .nil))

lemma not_brings_integer (width name : String) :
    ¬ (Node.block .typeSpecifierList [Node.integer width]).Brings name := by
  intro hbrings
  cases hbrings with
  | own h =>
    obtain ⟨_, ⟨⟩, hname⟩ := h
    cases hname
  | container h _ =>
    obtain ⟨_, _, ⟨⟩, hkind, -⟩ := h
    cases hkind

/-- The only definition is that of an integer. -/
lemma twoCounts_overt (first second : String) : (twoCounts first second).Overt := by
  intro entries hdeclare specifiers _ _ name _ hbrought
  have hdefinition : Node.DeclareAll [integerAlias "count_t" "8"] entries :=
    Node.declareAll_definitions.mpr hdeclare
  obtain ⟨own, _, hown, hrest, rfl⟩ := Node.declareAll_cons.mp hdefinition
  rw [Node.declareAll_nil.mp hrest, List.append_nil] at hbrought
  obtain ⟨entry, hentry, hbrings⟩ := hbrought
  cases hown with
  | «alias» _ htarget _ hspecifiers _ =>
    cases htarget
    cases hspecifiers
    cases List.mem_singleton.mp hentry
    exact absurd hbrings (not_brings_integer "8" name)
  | typedef hkind => cases hkind
  | declaration hkind => cases hkind
  | other hkind => cases hkind

theorem ofTree_exchanged_twoCounts :
    (Metadata.ofTree (twoCounts "0" "1")).isOk = true ∧
      Option.Rel Metadata.Alike (Metadata.ofTree (twoCounts "0" "1")).toOption
        (Metadata.ofTree (twoCounts "1" "0")).toOption :=
  ⟨by decide +kernel, Metadata.ofTree_exchanged twoCounts_exchanged (twoCounts_overt "0" "1")⟩

open Node in
/-- A definition with a structure that has a name and a body. -/
def pointDefinition : Node :=
  block .typeDef
    [block .typeSpecifierList
      [block .struct [word .structName "point", block .structBody [member (integer "8") "x" []]]],
      block .typeDeclaratorList [block .typeDeclarator [word .identifier "point_t"]]]

/-- An event that refers to the definition. -/
def byDefinition : Node :=
  eventWith "a" "0" (.word .typeName "point_t")

/-- An event that refers to the structure in the definition. -/
def byStructure : Node :=
  eventWith "b" "1" (.block .struct [.word .structName "point"])

/-- The structure is known to an event only if an event before it has used the definition: not every tree is
accepted with its events exchanged. -/
theorem not_forall_exchanged :
    ¬ ∀ root root' : Node, root.Exchanged root' →
      Option.Rel Metadata.Alike (Metadata.ofTree root).toOption (Metadata.ofTree root').toOption := by
  intro hclaim
  have hexchanged : (Node.block .root [pointDefinition, byDefinition, byStructure]).Exchanged
      (.block .root [pointDefinition, byStructure, byDefinition]) :=
    ⟨rfl, rfl, .cons _ (.swap _ _ _),
      .cons (.inl rfl) (.cons (.inr ⟨rfl, rfl⟩) (.cons (.inr ⟨rfl, rfl⟩) .nil))⟩
  have hrel := hclaim _ _ hexchanged
  have haccepted :
      (Metadata.ofTree (.block .root [pointDefinition, byDefinition, byStructure])).toOption.isSome =
      true := by decide +kernel
  have hrejected :
      (Metadata.ofTree (.block .root [pointDefinition, byStructure, byDefinition])).toOption.isSome =
      false := by decide +kernel
  generalize (Metadata.ofTree (.block .root [pointDefinition, byDefinition, byStructure])).toOption = accepted,
    (Metadata.ofTree (.block .root [pointDefinition, byStructure, byDefinition])).toOption = rejected
    at hrel haccepted hrejected
  cases hrel with
  | none => cases haccepted
  | some _ => cases hrejected

end CommonTrace
