import CommonTrace.Tsdl.Tree
import Mathlib.Data.List.Perm.Basic
import Mathlib.Data.Nat.Notation
import Mathlib.Tactic.Lemma

/-!
# Rearranging definitions

Definitions of type names may stand anywhere among the nodes of a block or a body.  Two trees are
`Rearranged` if, in every block and every body, they have the same definitions and the same other nodes in
the same order, whatever stands between them.

What is read of a tree is compared for like trees.  How like they are is left open by `Likeness`: they may be
rearranged, or they may be the same.
-/

namespace CommonTrace.Tsdl

/-- Whether nodes of the kind introduce names of types. -/
def NodeKind.isDefinition : NodeKind → Bool
  | .typeAlias | .typeDef | .typeDeclaration => true
  | _ => false

/-- Whether names of types may be introduced among the children of nodes of the kind. -/
def NodeKind.isScope : NodeKind → Bool
  | .root | .trace | .stream | .event | .structBody | .variantBody => true
  | _ => false

namespace Node

/-- What holds of a node if it holds of its children holds of all nodes. -/
@[elab_as_elim]
lemma induction {motive : Node → Prop}
    (node : ∀ node, (∀ child ∈ node.children, motive child) → motive node) (start : Node) :
    motive start :=
  node start fun child hchild =>
    have : sizeOf child < sizeOf start := by
      have hlt := List.sizeOf_lt_of_mem hchild
      obtain ⟨kind, text, children⟩ := start
      simp only [mk.sizeOf_spec] at hlt ⊢
      omega
    induction node child
termination_by sizeOf start

lemma kind_of_child? {node child : Node} {kind : NodeKind} (h : node.child? kind = some child) :
    child.kind = kind := by
  have hkind := List.find?_some h
  exact of_decide_eq_true hkind

/-- The nodes that introduce names of types. -/
def definitions (nodes : List Node) : List Node :=
  nodes.filter (·.kind.isDefinition)

/-- The nodes that introduce no names of types. -/
def others (nodes : List Node) : List Node :=
  nodes.filter (!·.kind.isDefinition)

/-- What is picked from related lists is related, if the same is picked. -/
lemma forall₂_filter {R : Node → Node → Prop} {nodes nodes' : List Node} {p : Node → Bool}
    (h : List.Forall₂ R nodes nodes') (hp : ∀ node node', R node node' → p node = p node') :
    List.Forall₂ R (nodes.filter p) (nodes'.filter p) :=
  List.rel_filter (fun _ _ hsame => by dsimp only; rw [hp _ _ hsame]) h

/-- What is found in related lists is related. -/
lemma forall₂_find? {R : Node → Node → Prop} {nodes nodes' : List Node} {p : Node → Bool}
    (h : List.Forall₂ R nodes nodes') (hp : ∀ node node', R node node' → p node = p node') :
    Option.Rel R (nodes.find? p) (nodes'.find? p) := by
  have hsome := forall₂_filter h hp
  rw [← List.head?_filter, ← List.head?_filter]
  generalize nodes.filter p = some, nodes'.filter p = some' at hsome
  cases hsome with
  | nil => exact .none
  | cons hfirst _ => exact .some hfirst

/-- **The same tree but for the places of definitions** in blocks and bodies. -/
inductive Rearranged : Node → Node → Prop
  | inOrder {kind : NodeKind} {text : String} {children children' : List Node}
      (h : List.Forall₂ Rearranged children children') :
      Rearranged ⟨kind, text, children⟩ ⟨kind, text, children'⟩
  | scope {kind : NodeKind} {text : String} {children children' moved : List Node}
      (hscope : kind.isScope = true)
      (hothers : List.Forall₂ Rearranged (others children) (others children'))
      (hmoved : (definitions children).Perm moved)
      (hdefinitions : List.Forall₂ Rearranged moved (definitions children')) :
      Rearranged ⟨kind, text, children⟩ ⟨kind, text, children'⟩

namespace Rearranged

variable {node node' : Node} {nodes nodes' : List Node}

lemma kind_eq (h : node.Rearranged node') : node.kind = node'.kind := by
  cases h <;> rfl

lemma text_eq (h : node.Rearranged node') : node.text = node'.text := by
  cases h <;> rfl

lemma refl (node : Node) : node.Rearranged node := by
  induction node using Node.induction with
  | node node ih =>
    obtain ⟨kind, text, children⟩ := node
    exact .inOrder (List.forall₂_same.mpr ih)

/-- The same definitions stand among the children, in some order. -/
lemma exists_definitions (h : node.Rearranged node') :
    ∃ moved, (definitions node.children).Perm moved ∧
      List.Forall₂ Rearranged moved (definitions node'.children) := by
  cases h with
  | inOrder h => exact ⟨_, .refl _, forall₂_filter h fun _ _ h => by rw [h.kind_eq]⟩
  | scope _ _ hmoved hdefinitions => exact ⟨_, hmoved, hdefinitions⟩

private lemma flip_of_mem {R : Node → Node → Prop} (h : List.Forall₂ R nodes nodes')
    (hflip : ∀ child ∈ nodes, ∀ child', R child child' → R child' child) :
    List.Forall₂ R nodes' nodes := by
  induction h with
  | nil => exact .nil
  | cons hfirst _ ih =>
    refine .cons (hflip _ List.mem_cons_self _ hfirst) (ih fun child hchild => ?_)
    exact hflip child (List.mem_cons_of_mem _ hchild)

lemma symm (h : node.Rearranged node') : node'.Rearranged node := by
  induction node using Node.induction generalizing node' with
  | node node ih =>
    have hflip (child) (hchild : child ∈ node.children) (child') (hsame : child.Rearranged child') :=
      ih child hchild hsame
    cases h with
    | inOrder h => exact .inOrder (flip_of_mem h hflip)
    | @scope kind text children children' moved hscope hothers hmoved hdefinitions =>
      have hback : List.Forall₂ Rearranged (definitions children') moved := by
        refine flip_of_mem hdefinitions fun child hchild => hflip child ?_
        exact List.mem_of_mem_filter (hmoved.mem_iff.mpr hchild)
      have hcomp : Relation.Comp (List.Forall₂ Rearranged) List.Perm (definitions children')
          (definitions children) := ⟨moved, hback, hmoved.symm⟩
      rw [List.forall₂_comp_perm_eq_perm_comp_forall₂] at hcomp
      obtain ⟨moved', hmoved', hforall⟩ := hcomp
      refine .scope hscope (flip_of_mem hothers fun child hchild => hflip child ?_) hmoved' hforall
      exact List.mem_of_mem_filter hchild

end Rearranged

/-! ## Likeness -/

/-- **A likeness of trees**: like trees are the same but for the places of definitions, and so are their
like parts. -/
structure Likeness (R : Node → Node → Prop) : Prop where
  rearranged : ∀ {node node' : Node}, R node node' → node.Rearranged node'
  others : ∀ {node node' : Node}, R node node' →
    List.Forall₂ R (others node.children) (others node'.children)
  children : ∀ {node node' : Node}, R node node' → node.kind.isScope = false →
    List.Forall₂ R node.children node'.children

namespace Likeness

lemma eq : Likeness Eq where
  rearranged h := h ▸ .refl _
  others h := h ▸ List.forall₂_refl _
  children h _ := h ▸ List.forall₂_refl _

lemma ofRearranged : Likeness Rearranged where
  rearranged h := h
  others h := by
    cases h with
    | inOrder h => exact forall₂_filter h fun _ _ h => by rw [h.kind_eq]
    | scope _ hothers _ _ => exact hothers
  children h hscope := by
    cases h with
    | inOrder h => exact h
    | scope h _ _ _ => exact absurd h (by simpa using hscope)

variable {R : Node → Node → Prop} {node node' : Node} {kind : NodeKind}

/-- Like nodes that are no definitions come in the same order. -/
lemma filter (like : Likeness R) (h : R node node') {p : NodeKind → Bool}
    (hp : ∀ kind, p kind = true → kind.isDefinition = false) :
    List.Forall₂ R (node.children.filter (p ·.kind)) (node'.children.filter (p ·.kind)) := by
  have hothers (node : Node) :
      (Node.others node.children).filter (p ·.kind) = node.children.filter (p ·.kind) := by
    rw [Node.others, List.filter_filter]
    refine List.filter_congr fun child _ => ?_
    by_cases hchild : p child.kind = true
    · simp [hchild, hp _ hchild]
    · simp [hchild]
  rw [← hothers node, ← hothers node']
  refine forall₂_filter (like.others h) fun child child' hchild => ?_
  rw [(like.rearranged hchild).kind_eq]

/-- Where no definitions are looked for, the children come in the same order. -/
lemma childrenOf (like : Likeness R) (h : R node node') (hkind : kind.isDefinition = false) :
    List.Forall₂ R (node.childrenOf kind) (node'.childrenOf kind) := by
  refine like.filter (p := fun other => other = kind) h fun other hother => ?_
  rw [of_decide_eq_true hother, hkind]

/-- Like nodes both have a child of the kind, or neither has. -/
lemma child? (like : Likeness R) (h : R node node') (hkind : kind.isDefinition = false) :
    node.child? kind = none ∧ node'.child? kind = none ∨
      ∃ child child', node.child? kind = some child ∧ node'.child? kind = some child' ∧
        R child child' := by
  have hsame := like.childrenOf h hkind
  rw [Node.child?, Node.child?, ← List.head?_filter, ← List.head?_filter]
  unfold Node.childrenOf at hsame
  generalize node.children.filter _ = some, node'.children.filter _ = some' at hsame
  cases hsame with
  | nil => exact .inl ⟨rfl, rfl⟩
  | cons hfirst _ => exact .inr ⟨_, _, rfl, rfl, hfirst⟩

end Likeness

namespace Rearranged

variable {node node' : Node} {nodes nodes' : List Node} {kind : NodeKind}

lemma children (h : node.Rearranged node') (hscope : node.kind.isScope = false) :
    List.Forall₂ Rearranged node.children node'.children :=
  Likeness.ofRearranged.children h hscope

lemma childrenOf (h : node.Rearranged node') (hkind : kind.isDefinition = false) :
    List.Forall₂ Rearranged (node.childrenOf kind) (node'.childrenOf kind) :=
  Likeness.ofRearranged.childrenOf h hkind

lemma child? (h : node.Rearranged node') (hkind : kind.isDefinition = false) :
    node.child? kind = none ∧ node'.child? kind = none ∨
      ∃ child child', node.child? kind = some child ∧ node'.child? kind = some child' ∧
        child.Rearranged child' :=
  Likeness.ofRearranged.child? h hkind

/-- The same with the kind of the children. -/
lemma childrenOf_kind (h : node.Rearranged node') (hkind : kind.isDefinition = false) :
    List.Forall₂ (fun child child' => child.Rearranged child' ∧ child.kind = kind)
      (node.childrenOf kind) (node'.childrenOf kind) := by
  have hall (child : Node) (hchild : child ∈ node.childrenOf kind) : child.kind = kind :=
    of_decide_eq_true (List.mem_filter.mp hchild).2
  have hsame := h.childrenOf hkind
  generalize node.childrenOf kind = some, node'.childrenOf kind = some' at hsame hall
  induction hsame with
  | nil => exact .nil
  | cons hfirst _ ih =>
    refine .cons ⟨hfirst, hall _ List.mem_cons_self⟩ (ih fun child hchild => ?_)
    exact hall child (List.mem_cons_of_mem _ hchild)

lemma hasChild_eq (h : node.Rearranged node') (hkind : kind.isDefinition = false) :
    node.hasChild kind = node'.hasChild kind := by
  unfold hasChild
  rcases h.child? hkind with ⟨hnone, hnone'⟩ | ⟨child, child', hsome, hsome', -⟩
  · rw [hnone, hnone']
  · rw [hsome, hsome']
    rfl

end Rearranged

end Node

end CommonTrace.Tsdl
