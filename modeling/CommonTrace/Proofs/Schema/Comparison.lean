import CommonTrace.Proofs.Schema.Likeness
import CommonTrace.Proofs.Schema.Names
import CommonTrace.Schema.Block

/-!
# Comparing two ways to build types

Several properties of the builders compare what they make of two trees, or of one tree in two tables.  They
differ in what is said about the tables, and agree in how they follow from the parts of a description.

A `Comparison` says of two steps that the one does what the other does, in whatever sense; a world stands
for what is known of the two tables.  The sense has to be kept when steps follow each other, and it has to
hold of steps without names.  `Comparison.Grounds` adds what is needed where names come in: when a scope is
opened, when a name is referred to, and when a type becomes known.  Given that, like descriptions are
interpreted alike (`Comparison.Grounds.interpret`).
-/

namespace CommonTrace

open Tsdl

/-! ## The parts of a description -/

/-- The type that an assignment gives is a child of its right side. -/
lemma Assignment.exists_right_of_type {node specifiers : Node} {a : Assignment}
    (ha : Assignment.ofNode node = .ok a) (hspecifiers : a.type = .ok specifiers) :
    ∃ right, node.child? .ctfRight = some right ∧ specifiers ∈ right.children := by
  unfold Assignment.ofNode at ha
  split at ha
  · cases ha
  · cases ha
  · rename_i right _ hright
    obtain ⟨key, -, hkey⟩ := exists_of_bind_eq_ok ha
    cases hkey
    unfold Assignment.type at hspecifiers
    split at hspecifiers
    · rename_i found hfound
      cases hspecifiers
      exact ⟨right, hright, List.mem_of_find?_eq_some hfound⟩
    · cases hspecifiers

namespace Tsdl.Node

open TypeM

/-- The names that specifiers refer to themselves, without regard to what their parts refer to. -/
inductive Refers (specifiers : Node) : String → Prop
  | words {first : Node} {name : String} (hfirst : specifiers.children.head? = some first)
      (hkind : first.kind = .typeName) (hname : wordsName specifiers = pure name) :
      Refers specifiers name
  | compound {first : Node} {name : String} (hfirst : specifiers.children.head? = some first)
      (hname : ReferredName first name) : Refers specifiers name
  | container {first : Node} (hfirst : specifiers.children.head? = some first)
      (hkind : first.kind = .enum) (hcontainer : first.child? .enumContainerType = none) :
      Refers specifiers "int"

/-- The name that becomes known when specifiers have been built. -/
def Introduces (specifiers : Node) (name : String) : Prop :=
  ∃ first, specifiers.children.head? = some first ∧ compoundName? first = some name

/-- The specifiers of the integers that an enumeration consists of. -/
def HasContainer (specifiers container : Node) : Prop :=
  ∃ first holder, specifiers.children.head? = some first ∧ first.kind = .enum ∧
    first.child? .enumContainerType = some holder ∧
    holder.child? .typeSpecifierList = some container

/-- The body of a structure or a variant. -/
def HasBody (specifiers body : Node) : Prop :=
  ∃ first, specifiers.children.head? = some first ∧
    (first.kind = .struct ∧ first.child? .structBody = some body ∨
      first.kind = .variant ∧ first.child? .variantBody = some body)

/-- The specifiers of a member of a body, or of the layout that a block gives. -/
inductive HasMember (body : Node) : Node → Prop
  | field {declaration specifiers : Node} (hdeclaration : declaration ∈ body.childrenOf .fieldDeclaration)
      (hspecifiers : declaration.child? .typeSpecifierList = some specifiers) :
      HasMember body specifiers
  | layout {node specifiers : Node} {a : Assignment} (hnode : node ∈ BlockM.assignmentNodes body)
      (ha : Assignment.ofNode node = .ok a) (hspecifiers : a.type = .ok specifiers) :
      HasMember body specifiers

lemma HasContainer.kind_eq {specifiers container : Node} (h : specifiers.HasContainer container) :
    container.kind = .typeSpecifierList := by
  obtain ⟨_, _, _, _, _, h⟩ := h
  exact kind_of_child? h

lemma HasMember.kind_eq {body specifiers : Node} (h : body.HasMember specifiers) :
    specifiers.kind = .typeSpecifierList := by
  cases h with
  | field _ h => exact kind_of_child? h
  | layout _ _ h =>
    unfold Assignment.type at h
    split at h
    · rename_i found hfound
      cases h
      have hkind := List.find?_some hfound
      exact of_decide_eq_true hkind
    · cases h

end Tsdl.Node

/-! ## Comparisons -/

/-- **A way to compare two steps.**  `Holds world x y P` says that `y` does what `x` does, from tables of
which `world` is known, and that their results are related by `P` in a later world. -/
structure Comparison where
  /-- What is known of two tables. -/
  World : Type
  /-- More may become known. -/
  Later : World → World → Prop
  /-- The one step does what the other does. -/
  Holds : {α : Type} → World → TypeM α → TypeM α → (World → α → α → Prop) → Prop
  later_refl : ∀ world, Later world world
  later_trans : ∀ {first second third}, Later first second → Later second third → Later first third
  pure : ∀ {α : Type} {world : World} {a b : α} {P : World → α → α → Prop},
    P world a b → Holds world (pure a) (pure b) P
  throw : ∀ {α : Type} {world : World} {error : SchemaError} {P : World → α → α → Prop},
    error.IsLocal → Holds world (throw error) (throw error) P
  bind : ∀ {α β : Type} {world : World} {x y : TypeM α} {P : World → α → α → Prop}
    {next next' : α → TypeM β} {Q : World → β → β → Prop}, Holds world x y P →
    (∀ later a b, Later world later → P later a b → Holds later (next a) (next' b) Q) →
    Holds world (x >>= next) (y >>= next') Q
  nameless : ∀ {α : Type} {world : World} {step : TypeM α}, step.Nameless →
    Holds world step step fun _ a b => a = b

namespace Comparison

/-- Opens a scope for a body or a block and enters the names that are declared in it. -/
def openBody (outer : TypeScopeId) (body : Node) : TypeM TypeScopeId := do
  let scope ← TypeM.openScope outer
  TypeM.enterAll scope body.children
  return scope

/-- A body is opened if no name is declared twice in it. -/
lemma openBody_eq_ok_iff {outer scope : TypeScopeId} {body : Node} {table table' : TypeTable} :
    openBody outer body table = .ok (scope, table') ↔
      scope = table.scopes.size ∧ ∃ declared, List.Forall₂ Node.Declares body.children declared ∧
        (declared.flatten.map Prod.fst).Nodup ∧
        table' = (table.opened outer).entered table.scopes.size declared.flatten := by
  have hopen : openBody outer body table =
      (TypeM.enterAll table.scopes.size body.children (table.opened outer)).map
        fun r => (table.scopes.size, r.2) := by
    change (TypeM.enterAll table.scopes.size body.children (table.opened outer) >>=
      fun r => Pure.pure (table.scopes.size, r.2)) = _
    cases TypeM.enterAll table.scopes.size body.children (table.opened outer) <;> rfl
  have hfresh (name : String) : (table.opened outer).lookup? table.scopes.size name = none := by
    rw [TypeTable.lookup?_opened, TypeTable.lookup?_eq_none _ _ _ (Nat.le_refl _)]
  rw [hopen, ← TypeM.enterAll_eq_ok_iff_of_fresh (by simp) hfresh]
  cases TypeM.enterAll table.scopes.size body.children (table.opened outer) with
  | error e => simp [Except.map]
  | ok r => simp [Except.map, Prod.ext_iff, eq_comm]

variable (C : Comparison)

/-- The results are the same. -/
abbrev Same (world : C.World) {α : Type} (x y : TypeM α) : Prop :=
  C.Holds world x y fun _ a b => a = b

variable {C} {α β : Type} {world : C.World} {x y : TypeM α} {P Q : C.World → α → α → Prop}

lemma weaken (h : C.Holds world x y P)
    (hP : ∀ later a b, C.Later world later → P later a b → Q later a b) : C.Holds world x y Q := by
  rw [← bind_pure x, ← bind_pure y]
  exact C.bind h fun later a b hlater hab => C.pure (hP later a b hlater hab)

/-- A step without names, and what is done with its result. -/
lemma nameless_bind {step : TypeM α} (h : step.Nameless) {next next' : α → TypeM β}
    {Q : C.World → β → β → Prop}
    (hnext : ∀ later a, C.Later world later → C.Holds later (next a) (next' a) Q) :
    C.Holds world (step >>= next) (step >>= next') Q := by
  refine C.bind (C.nameless h) fun later a b hlater hab => ?_
  subst hab
  exact hnext later a hlater

lemma malformed (fault : Malformed) : C.Holds world (TypeM.malformed fault) (TypeM.malformed fault) P :=
  C.throw trivial

lemma invalid (fault : Invalid) : C.Holds world (TypeM.invalid fault) (TypeM.invalid fault) P :=
  C.throw trivial

/-- A step that stops everything, and whatever is done after it. -/
lemma throw_bind {error : SchemaError} (h : error.IsLocal) {next next' : α → TypeM β}
    {Q : C.World → β → β → Prop} :
    C.Holds world ((MonadExcept.throw error : TypeM α) >>= next)
      ((MonadExcept.throw error : TypeM α) >>= next') Q :=
  C.bind (P := fun _ _ _ => False) (C.throw h) fun _ _ _ _ h => h.elim

lemma malformed_bind (fault : Malformed) {next next' : α → TypeM β} {Q : C.World → β → β → Prop} :
    C.Holds world (TypeM.malformed fault >>= next) (TypeM.malformed fault >>= next') Q :=
  throw_bind (by trivial)

lemma invalid_bind (fault : Invalid) {next next' : α → TypeM β} {Q : C.World → β → β → Prop} :
    C.Holds world (TypeM.invalid fault >>= next) (TypeM.invalid fault >>= next') Q :=
  throw_bind (by trivial)

/-- Loops over related items keep what each of their rounds keeps. -/
lemma foldlM {ι : Type} {R : ι → ι → Prop} {items items' : List ι} (h : List.Forall₂ R items items')
    {step step' : α → ι → TypeM α}
    (hstep : ∀ later a b item item', C.Later world later → P later a b → R item item' →
      item ∈ items → item' ∈ items' → C.Holds later (step a item) (step' b item') P)
    {start start' : α} (hstart : P world start start') :
    C.Holds world (items.foldlM step start) (items'.foldlM step' start') P := by
  induction h generalizing world start start' with
  | nil => exact C.pure hstart
  | @cons item item' items items' hfirst _ ih =>
    rw [List.foldlM_cons, List.foldlM_cons]
    refine C.bind (hstep world _ _ _ _ (C.later_refl world) hstart hfirst List.mem_cons_self
      List.mem_cons_self) fun middle a b hmiddle hab => ih ?_ hab
    intro later a b item item' hlater hab hitem hmem hmem'
    exact hstep later a b item item' (C.later_trans hmiddle hlater) hab hitem
      (List.mem_cons_of_mem _ hmem) (List.mem_cons_of_mem _ hmem')

/-- Names are resolved alike one after the other if each of them is at all later times. -/
lemma forM_resolve {resolve resolve' : String → TypeM FieldType} (names : List String)
    (h : ∀ later name, C.Later world later → C.Same later (resolve name) (resolve' name)) :
    C.Same world (names.forM fun name => do let _ ← resolve name)
      (names.forM fun name => do let _ ← resolve' name) := by
  induction names generalizing world with
  | nil => exact C.pure rfl
  | cons name rest ih =>
    have hfirst : C.Holds world (resolve name >>= fun _ => Pure.pure ())
        (resolve' name >>= fun _ => Pure.pure ()) fun _ _ _ => True :=
      C.bind (h world name (C.later_refl world)) fun _ _ _ _ _ => C.pure trivial
    refine C.bind hfirst fun middle _ _ hmiddle _ => ih fun later name hlater => ?_
    exact h later name (C.later_trans hmiddle hlater)

lemma rel_eq_refl (declarator : Option Node) : Option.Rel Eq declarator declarator := by
  cases declarator with
  | none => exact .none
  | some _ => exact .some rfl

/-- Types that are built alike are declared alike. -/
lemma buildType {R : Node → Node → Prop} (like : Node.Likeness R)
    {build build' : TypeScopeId → Node → TypeM FieldType} {s s' : TypeScopeId} {n n' : Node}
    (hbuilt : C.Same world (build s n) (build' s' n')) {declarator declarator' : Option Node}
    (hdeclarator : Option.Rel R declarator declarator') :
    C.Same world (TypeM.buildType build s n declarator) (TypeM.buildType build' s' n' declarator') := by
  refine C.bind hbuilt fun later t t' _ hsame => ?_
  subst hsame
  cases hdeclarator with
  | none => exact C.pure rfl
  | some hlike =>
    dsimp only
    rw [TypeM.applyDeclarator_eq t (like.rearranged hlike)]
    exact C.nameless (TypeM.nameless_applyDeclarator t _)

/-- **What a comparison of two ways to build types rests on.**  `outer` says that specifiers may be
interpreted in a scope, and `inner` that their parts may be built; `inside` says that a scope has been opened
for a body or a block. -/
structure Grounds (C : Comparison) (R : Node → Node → Prop)
    (resolve resolve' : TypeScopeId → String → TypeM FieldType)
    (build build' : TypeScopeId → Node → TypeM FieldType)
    (outer inner inside : C.World → TypeScopeId → TypeScopeId → Node → Node → Prop) : Prop where
  like : Node.Likeness R
  outer_like : ∀ {world s s' n n'}, outer world s s' n n' → R n n' ∧ n.kind = .typeSpecifierList
  outer_later : ∀ {world later s s' n n'}, C.Later world later → outer world s s' n n' →
    outer later s s' n n'
  inside_later : ∀ {world later s s' b b'}, C.Later world later → inside world s s' b b' →
    inside later s s' b b'
  built : ∀ {world s s' n n'}, inner world s s' n n' → C.Same world (build s n) (build' s' n')
  resolved : ∀ {world s s' n n' name}, outer world s s' n n' → n.Refers name →
    C.Same world (resolve s name) (resolve' s' name)
  resolvedAll : ∀ {world s s' b b'}, inside world s s' b b' →
    C.Same world (TypeM.resolveAll resolve s) (TypeM.resolveAll resolve' s')
  known : ∀ {world s s' n n' name} (t : FieldType), outer world s s' n n' → n.Introduces name →
    C.Same world (TypeM.enterBuilt s name t) (TypeM.enterBuilt s' name t)
  container : ∀ {world s s' n n' c c'}, outer world s s' n n' → n.HasContainer c →
    n'.HasContainer c' → R c c' → inner world s s' c c'
  body : ∀ {world s s' n n' b b'}, outer world s s' n n' → n.HasBody b → n'.HasBody b' → R b b' →
    C.Holds world (openBody s b) (openBody s' b') fun later t t' => inside later t t' b b'
  member : ∀ {world s s' b b' m m'}, inside world s s' b b' → b.HasMember m → b'.HasMember m' →
    R m m' → inner world s s' m m'

namespace Grounds

variable {R : Node → Node → Prop} {resolve resolve' : TypeScopeId → String → TypeM FieldType}
  {build build' : TypeScopeId → Node → TypeM FieldType}
  {outer inner inside : C.World → TypeScopeId → TypeScopeId → Node → Node → Prop}
  {s s' : TypeScopeId} {n n' b b' first first' : Node}

section

variable (G : Grounds C R resolve resolve' build build' outer inner inside)

include G

/-! ### Members -/

lemma addMember (h : inside world s s' b b') (owner : String) (hn : b.HasMember n)
    (hn' : b'.HasMember n') (hsame : R n n') (before : List (String × FieldType))
    {declarator declarator' : Node} (hdeclarator : R declarator declarator') :
    C.Same world (TypeM.addMember build s owner n before declarator)
      (TypeM.addMember build' s' owner n' before declarator') := by
  unfold TypeM.addMember
  rw [TypeM.declaratorName_eq (G.like.rearranged hdeclarator)]
  refine nameless_bind (TypeM.nameless_declaratorName _) fun later name hlater => ?_
  dsimp only
  split
  · exact throw_bind (by trivial)
  · have hinner := G.member (G.inside_later hlater h) hn hn' hsame
    refine C.bind (buildType G.like (G.built hinner) (.some hdeclarator)) fun later t t' _ heq => ?_
    subst heq
    exact nameless_bind (TypeM.nameless_checkTagged name t) fun _ _ _ => C.pure rfl

lemma addMembers (h : inside world s s' b b') (owner : String) (before : List (String × FieldType))
    {declaration declaration' : Node} (hlike : R declaration declaration')
    (hmem : declaration ∈ b.childrenOf .fieldDeclaration)
    (hmem' : declaration' ∈ b'.childrenOf .fieldDeclaration) :
    C.Same world (TypeM.addMembers build s owner before declaration)
      (TypeM.addMembers build' s' owner before declaration') := by
  unfold TypeM.addMembers
  rcases G.like.child? hlike (show NodeKind.typeSpecifierList.isDefinition = false from rfl) with
    ⟨hnone, hnone'⟩ | ⟨n, n', hn, hn', hsame⟩
  · rw [TypeM.require_of_child?_eq_none hnone, TypeM.require_of_child?_eq_none hnone']
    exact malformed_bind _
  rw [TypeM.require_of_child? hn, TypeM.require_of_child? hn', pure_bind, pure_bind]
  rcases G.like.child? hlike (show NodeKind.typeDeclaratorList.isDefinition = false from rfl) with
    ⟨hnone, hnone'⟩ | ⟨declarators, declarators', hds, hds', hlist⟩
  · rw [TypeM.require_of_child?_eq_none hnone, TypeM.require_of_child?_eq_none hnone']
    exact malformed_bind _
  rw [TypeM.require_of_child? hds, TypeM.require_of_child? hds', pure_bind, pure_bind]
  refine foldlM (G.like.childrenOf hlist rfl) (fun later before before' d d' hlater heq hd _ _ => ?_) rfl
  subst heq
  exact G.addMember (G.inside_later hlater h) owner (.field hmem hn) (.field hmem' hn') hsame before hd

/-- The members of a body, which has been opened. -/
lemma buildMembers (h : outer world s s' n n') (hbody : n.HasBody b) (hbody' : n'.HasBody b')
    (hlike : R b b') (owner : String) :
    C.Same world (TypeM.buildMembers resolve build s owner b)
      (TypeM.buildMembers resolve' build' s' owner b') := by
  have hopen (resolve : TypeScopeId → String → TypeM FieldType)
      (build : TypeScopeId → Node → TypeM FieldType) (s : TypeScopeId) (b : Node) :
      TypeM.buildMembers resolve build s owner b = openBody s b >>= fun scope => do
        let members ← (b.childrenOf .fieldDeclaration).foldlM (TypeM.addMembers build scope owner) []
        TypeM.resolveAll resolve scope
        return members := by
    simp only [TypeM.buildMembers, openBody, bind_assoc, pure_bind]
  rw [hopen, hopen]
  refine C.bind (G.body h hbody hbody' hlike) fun later t t' _ hinside => ?_
  refine C.bind (P := fun _ members members' => members = members') ?_
    fun later members members' hlater heq => ?_
  · refine foldlM (G.like.childrenOf hlike rfl)
      (fun later before before' d d' hlater heq hd hmem hmem' => ?_) rfl
    subst heq
    exact G.addMembers (G.inside_later hlater hinside) owner before hd hmem hmem'
  · subst heq
    exact C.bind (G.resolvedAll (G.inside_later hlater hinside)) fun _ _ _ _ _ => C.pure rfl

/-! ### Compound types -/

lemma makeKnown (h : outer world s s' n n') (hfirst : n.children.head? = some first)
    {name : Option String} (hname : ∀ known ∈ name, TypeM.compoundName? first = some known)
    (t : FieldType) :
    C.Same world (TypeM.makeKnown s name t) (TypeM.makeKnown s' name t) := by
  cases name with
  | none => exact C.pure rfl
  | some name => exact G.known t h ⟨first, hfirst, hname name rfl⟩

lemma containerType (h : outer world s s' n n') (hfirst : n.children.head? = some first)
    (hfirst' : n'.children.head? = some first') (hlike : R first first') (hkind : first.kind = .enum) :
    C.Same world (TypeM.containerType resolve build s first)
      (TypeM.containerType resolve' build' s' first') := by
  have hkind' : first'.kind = .enum := (G.like.rearranged hlike).kind_eq ▸ hkind
  unfold TypeM.containerType
  rcases G.like.child? hlike (show NodeKind.enumContainerType.isDefinition = false from rfl) with
    ⟨hnone, hnone'⟩ | ⟨holder, holder', hholder, hholder', hsame⟩
  · rw [hnone, hnone']
    refine C.bind (G.resolved h (.container hfirst hkind hnone)) fun later t t' _ heq => ?_
    subst heq
    dsimp only
    split
    · exact C.pure rfl
    · exact C.invalid _
  rw [hholder, hholder']
  dsimp only
  rcases G.like.child? hsame (show NodeKind.typeSpecifierList.isDefinition = false from rfl) with
    ⟨hnone, hnone'⟩ | ⟨c, c', hc, hc', hlikeC⟩
  · rw [TypeM.require_of_child?_eq_none hnone, TypeM.require_of_child?_eq_none hnone']
    exact malformed_bind _
  · rw [TypeM.require_of_child? hc, TypeM.require_of_child? hc', pure_bind, pure_bind]
    have hinner := G.container h ⟨first, holder, hfirst, hkind, hholder, hc⟩
      ⟨first', holder', hfirst', hkind', hholder', hc'⟩ hlikeC
    refine C.bind (G.built hinner) fun later t t' _ heq => ?_
    subst heq
    split
    · exact C.pure rfl
    · exact C.invalid _

lemma buildEnum (h : outer world s s' n n') (hfirst : n.children.head? = some first)
    (hfirst' : n'.children.head? = some first') (hlike : R first first') (hkind : first.kind = .enum) :
    C.Same world (TypeM.buildEnum resolve build s first)
      (TypeM.buildEnum resolve' build' s' first') := by
  have hkinds : TypeM.CompoundKinds first.kind "enum" .enumName .enumBody := hkind ▸ .enum
  unfold TypeM.buildEnum
  rcases TypeM.describe_cases G.like hlike hkinds .enumNameMissing with
    ⟨hfault, hfault'⟩ | ⟨name, hname, hname', hrefers⟩ |
      ⟨name, body, body', hbody, hbody', hlikeB, -, -, hknown⟩
  · rw [hfault, hfault']
    exact malformed_bind _
  · rw [hname, hname', pure_bind, pure_bind]
    exact G.resolved h (.compound hfirst hrefers)
  rw [hbody, hbody', pure_bind, pure_bind]
  dsimp only
  refine C.bind (G.containerType h hfirst hfirst' hlike hkind) fun later t t' hlater heq => ?_
  subst heq
  have henumerators :=
    (G.like.rearranged hlikeB).childrenOf_kind (show NodeKind.enumerator.isDefinition = false from rfl)
  rw [foldlM_eq henumerators fun before e e' he => TypeM.addEnumerator_eq t before he.1 he.2]
  refine nameless_bind (.foldlM _ _ fun before e => TypeM.nameless_addEnumerator t before e)
    fun last ranges hlast => ?_
  refine C.bind (G.makeKnown (G.outer_later (C.later_trans hlater hlast) h) hfirst hknown _)
    fun _ _ _ _ _ => C.pure rfl

lemma buildStruct (h : outer world s s' n n') (hfirst : n.children.head? = some first)
    (hfirst' : n'.children.head? = some first') (hlike : R first first')
    (hkind : first.kind = .struct) :
    C.Same world (TypeM.buildStruct resolve build s first)
      (TypeM.buildStruct resolve' build' s' first') := by
  have hkind' : first'.kind = .struct := (G.like.rearranged hlike).kind_eq ▸ hkind
  have hkinds : TypeM.CompoundKinds first.kind "struct" .structName .structBody := hkind ▸ .struct
  unfold TypeM.buildStruct
  rcases TypeM.describe_cases G.like hlike hkinds .structNameMissing with
    ⟨hfault, hfault'⟩ | ⟨name, hname, hname', hrefers⟩ |
      ⟨name, body, body', hbody, hbody', hlikeB, hchild, hchild', hknown⟩
  · rw [hfault, hfault']
    exact malformed_bind _
  · rw [hname, hname', pure_bind, pure_bind]
    exact G.resolved h (.compound hfirst hrefers)
  rw [hbody, hbody', pure_bind, pure_bind]
  dsimp only
  rw [TypeM.declaredAlignment_eq (G.like.rearranged hlike)]
  refine nameless_bind (TypeM.nameless_declaredAlignment _) fun later alignment hlater => ?_
  refine C.bind (G.buildMembers (G.outer_later hlater h) ⟨first, hfirst, .inl ⟨hkind, hchild⟩⟩
    ⟨first', hfirst', .inl ⟨hkind', hchild'⟩⟩ hlikeB "struct") fun last members members' hlast heq => ?_
  subst heq
  exact C.bind (G.makeKnown (G.outer_later (C.later_trans hlater hlast) h) hfirst hknown _)
    fun _ _ _ _ _ => C.pure rfl

lemma buildVariant (h : outer world s s' n n') (hfirst : n.children.head? = some first)
    (hfirst' : n'.children.head? = some first') (hlike : R first first')
    (hkind : first.kind = .variant) :
    C.Same world (TypeM.buildVariant resolve build s first)
      (TypeM.buildVariant resolve' build' s' first') := by
  have hkind' : first'.kind = .variant := (G.like.rearranged hlike).kind_eq ▸ hkind
  have hkinds : TypeM.CompoundKinds first.kind "variant" .variantName .variantBody := hkind ▸ .variant
  unfold TypeM.buildVariant
  rw [TypeM.declaredTag_eq (G.like.rearranged hlike)]
  refine nameless_bind (TypeM.nameless_declaredTag _) fun later tag hlater => ?_
  have h := G.outer_later hlater h
  rcases TypeM.describe_cases G.like hlike hkinds .variantNameMissing with
    ⟨hfault, hfault'⟩ | ⟨name, hname, hname', hrefers⟩ |
      ⟨name, body, body', hbody, hbody', hlikeB, hchild, hchild', hknown⟩
  · rw [hfault, hfault']
    exact malformed_bind _
  · rw [hname, hname', pure_bind, pure_bind]
    refine C.bind (G.resolved h (.compound hfirst hrefers)) fun _ t t' _ heq => ?_
    subst heq
    exact C.pure rfl
  rw [hbody, hbody', pure_bind, pure_bind]
  dsimp only
  refine C.bind (G.buildMembers h ⟨first, hfirst, .inr ⟨hkind, hchild⟩⟩
    ⟨first', hfirst', .inr ⟨hkind', hchild'⟩⟩ hlikeB "variant") fun last members members' hlast heq => ?_
  subst heq
  split
  · exact invalid_bind _
  · exact C.bind (G.makeKnown (G.outer_later hlast h) hfirst hknown _) fun _ _ _ _ _ => C.pure rfl

/-! ### All types -/

/-- **Like descriptions are interpreted alike.** -/
theorem interpret (h : outer world s s' n n') :
    C.Same world (TypeM.interpret resolve build s n)
      (TypeM.interpret resolve' build' s' n') := by
  obtain ⟨hlike, hkind⟩ := G.outer_like h
  have hchildren := G.like.children hlike (by rw [hkind]; rfl)
  unfold TypeM.interpret
  cases hn : n.children with
  | nil =>
    rw [hn] at hchildren
    cases hn' : n'.children with
    | nil => exact C.malformed _
    | cons first' rest' =>
      rw [hn'] at hchildren
      cases hchildren
  | cons first rest =>
    rw [hn] at hchildren
    cases hn' : n'.children with
    | nil =>
      rw [hn'] at hchildren
      cases hchildren
    | cons first' rest' =>
      rw [hn', List.forall₂_cons] at hchildren
      have hfirst : n.children.head? = some first := by rw [hn, List.head?_cons]
      have hfirst' : n'.children.head? = some first' := by rw [hn', List.head?_cons]
      have hsame := hchildren.1
      have hrearranged := G.like.rearranged hsame
      dsimp only
      rw [← hrearranged.kind_eq]
      split
      · rw [TypeM.integerType_eq hrearranged]
        exact nameless_bind (TypeM.nameless_integerType _) fun _ _ _ => C.pure rfl
      · rw [TypeM.floatType_eq hrearranged]
        exact nameless_bind (TypeM.nameless_floatType _) fun _ _ _ => C.pure rfl
      · rw [TypeM.stringType_eq hrearranged]
        exact nameless_bind (TypeM.nameless_stringType _) fun _ _ _ => C.pure rfl
      · exact G.buildEnum h hfirst hfirst' hsame ‹_›
      · exact G.buildStruct h hfirst hfirst' hsame ‹_›
      · exact G.buildVariant h hfirst hfirst' hsame ‹_›
      · rename_i hfirstKind
        rw [← TypeM.wordsName_eq (G.like.rearranged hlike)]
        rcases TypeM.decided_wordsName n with ⟨name, hname⟩ | ⟨fault, hfault⟩
        · rw [hname, pure_bind, pure_bind]
          exact G.resolved h (.words hfirst hfirstKind hname)
        · rw [hfault]
          exact malformed_bind _
      · exact C.malformed _

end

end Grounds

end Comparison
end CommonTrace
