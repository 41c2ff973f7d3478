import CommonTrace.Proofs.Schema.Comparison

/-!
# Comparing two ways to read blocks

What has been said of building types (`Comparison.Grounds`) carries over to the blocks that types are used
in: like blocks are read alike, and so are whole trees (`Comparison.Grounds.readEntered`).  Besides the table
there is now a list of what has been passed over in blocks.  How two such lists are related is left open; the
relation only has to be kept when the same is passed over on both sides.
-/

namespace CommonTrace

open Tsdl

/-! ## Reading blocks without a table -/

namespace BlockM

variable {a a' : Assignment}

lemma uuidOf_eq (h : a.Like Node.Rearranged a') : uuidOf a = uuidOf a' := by
  rw [uuidOf, uuidOf, h.string_eq]

lemma envValueOf_eq (h : a.Like Node.Rearranged a') : envValueOf a = envValueOf a' := by
  rw [envValueOf, envValueOf, h.signed_eq, h.string_eq]

lemma assignClock_eq (draft : ClockDraft) (h : a.Like Node.Rearranged a') :
    assignClock draft a = assignClock draft a' := by
  rw [assignClock, assignClock, h.key_eq, h.string_eq, h.unsigned_eq, h.signed_eq, h.boolean_eq,
    uuidOf_eq h]

/-- Reads the blocks under the root, when the names that are declared beside them have been entered. -/
def readEntered (resolve : TypeScopeId → String → TypeM FieldType)
    (build : TypeScopeId → Node → TypeM FieldType) (root : Node) : BlockM Blocks := do
  let blocks ← root.children.foldlM (readNode resolve build) .empty
  TypeM.resolveAll resolve TypeTable.rootScope
  return blocks

lemma readAll_apply (resolve : TypeScopeId → String → TypeM FieldType)
    (build : TypeScopeId → Node → TypeM FieldType) (root : Node) (passed : List Warning)
    (table : TypeTable) :
    readAll resolve build root passed table =
      TypeM.enterAll TypeTable.rootScope root.children table >>= fun r =>
        readEntered resolve build root passed r.2 := by
  change (TypeM.enterAll TypeTable.rootScope root.children table >>= _) >>= _ = _
  rw [bind_assoc]
  rfl

/-- Definitions among the nodes under the root have no part in reading blocks. -/
lemma foldlM_readNode_others (resolve : TypeScopeId → String → TypeM FieldType)
    (build : TypeScopeId → Node → TypeM FieldType) (nodes : List Node) (start : Blocks) :
    nodes.foldlM (readNode resolve build) start =
      (Node.others nodes).foldlM (readNode resolve build) start := by
  induction nodes generalizing start with
  | nil => rfl
  | cons node rest ih =>
    cases hkind : node.kind.isDefinition with
    | true =>
      have hread : readNode resolve build start node = pure start := by
        unfold readNode
        split <;> first | rfl | simp_all [NodeKind.isDefinition]
      rw [Node.others, List.filter_cons, hkind, if_neg (by decide), List.foldlM_cons, hread, pure_bind]
      exact ih start
    | false =>
      rw [Node.others, List.filter_cons, hkind, if_pos (by decide), List.foldlM_cons, List.foldlM_cons]
      exact bind_congr fun blocks => ih blocks

/-! ### Within a number of nested steps -/

section Within

variable (depth : ℕ)

/-- Reads the block of an event, where types are built within a number of nested steps. -/
abbrev readEventWithin : Node → BlockM EventSchema :=
  readEvent (TypeM.resolveNamed (TypeM.buildSpecifiers depth)) (TypeM.buildSpecifiers depth)

/-- Adds what a node under the root declares, where types are built within a number of nested steps. -/
abbrev readNodeWithin : Blocks → Node → BlockM Blocks :=
  readNode (TypeM.resolveNamed (TypeM.buildSpecifiers depth)) (TypeM.buildSpecifiers depth)

/-- Reads the blocks under the root, where types are built within a number of nested steps and names have
been entered. -/
abbrev readEnteredWithin : Node → BlockM Blocks :=
  readEntered (TypeM.resolveNamed (TypeM.buildSpecifiers depth)) (TypeM.buildSpecifiers depth)

/-- Reads the blocks under the root, where types are built within a number of nested steps. -/
abbrev readAllWithin : Node → BlockM Blocks :=
  readAll (TypeM.resolveNamed (TypeM.buildSpecifiers depth)) (TypeM.buildSpecifiers depth)

lemma readAllWithin_apply (root : Node) (passed : List Warning) (table : TypeTable) :
    readAllWithin depth root passed table =
      TypeM.enterAll TypeTable.rootScope root.children table >>= fun r =>
        readEnteredWithin depth root passed r.2 :=
  readAll_apply _ _ root passed table

end Within

end BlockM

namespace Comparison

variable (C : Comparison) (V : List Warning → List Warning → Prop)

/-- One step in reading blocks does what another does, and `V` relates what has been passed over. -/
def HoldsBlock {α : Type} (world : C.World) (x y : BlockM α) (P : C.World → α → α → Prop) : Prop :=
  ∀ passed passed', V passed passed' →
    C.Holds world (x passed) (y passed') fun later r r' => P later r.1 r'.1 ∧ V r.2 r'.2

/-- The same with equal results. -/
abbrev SameBlock {α : Type} (world : C.World) (x y : BlockM α) : Prop :=
  C.HoldsBlock V world x y fun _ a b => a = b

variable {C V} {α β : Type} {world : C.World} {P : C.World → α → α → Prop} {Q : C.World → β → β → Prop}

namespace HoldsBlock

lemma pure {a b : α} (h : P world a b) : C.HoldsBlock V world (Pure.pure a) (Pure.pure b) P :=
  fun _ _ hpassed => C.pure ⟨h, hpassed⟩

lemma throw {error : SchemaError} (h : error.IsLocal) :
    C.HoldsBlock V world (MonadExcept.throw error) (MonadExcept.throw error) P := by
  intro passed passed' _
  change C.Holds world ((MonadExcept.throw error : TypeM α) >>= fun a => Pure.pure (a, passed))
    ((MonadExcept.throw error : TypeM α) >>= fun a => Pure.pure (a, passed')) _
  exact throw_bind h

lemma bind {x y : BlockM α} {next next' : α → BlockM β} (h : C.HoldsBlock V world x y P)
    (hnext : ∀ later a b, C.Later world later → P later a b →
      C.HoldsBlock V later (next a) (next' b) Q) :
    C.HoldsBlock V world (x >>= next) (y >>= next') Q :=
  fun passed passed' hpassed => C.bind (h passed passed' hpassed)
    fun later r r' hlater hr => hnext later r.1 r'.1 hlater hr.1 r.2 r'.2 hr.2

/-- A step that stops everything, and whatever is done after it. -/
lemma throw_bind {error : SchemaError} (h : error.IsLocal) {next next' : α → BlockM β} :
    C.HoldsBlock V world ((MonadExcept.throw error : BlockM α) >>= next)
      ((MonadExcept.throw error : BlockM α) >>= next') Q :=
  bind (P := fun _ _ _ => False) (throw h) fun _ _ _ _ h => h.elim

/-- A step in building types. -/
lemma lift {x y : TypeM α} (h : C.Holds world x y P) :
    C.HoldsBlock V world (liftM x) (liftM y) P := by
  intro passed passed' hpassed
  change C.Holds world (x >>= fun a => Pure.pure (a, passed)) (y >>= fun a => Pure.pure (a, passed')) _
  exact C.bind h fun _ _ _ _ hab => C.pure ⟨hab, hpassed⟩

/-- A step in building types, and what is made of its result. -/
lemma lift_bind_pure {x y : TypeM α} (h : C.Same world x y) (f : α → β) :
    C.SameBlock V world ((liftM x : BlockM α) >>= fun a => Pure.pure (f a))
      ((liftM y : BlockM α) >>= fun a => Pure.pure (f a)) :=
  bind (lift h) fun _ _ _ _ heq => pure (congrArg f heq)

/-- A step that does not look at the table, and what is done with its result. -/
lemma of_bind {x : Except SchemaError α} (h : Local x) {next next' : α → BlockM β}
    (hnext : ∀ later a, C.Later world later → C.HoldsBlock V later (next a) (next' a) Q) :
    C.HoldsBlock V world ((liftM x : BlockM α) >>= next) ((liftM x : BlockM α) >>= next') Q := by
  refine bind (P := fun _ a b => a = b) (lift (C.nameless (TypeM.Nameless.lift h)))
    fun later a b hlater hab => ?_
  subst hab
  exact hnext later a hlater

/-- A step that does not look at the table, and what is made of its result. -/
lemma of_bind_pure {x : Except SchemaError α} (h : Local x) (f : α → β) :
    C.SameBlock V world ((liftM x : BlockM α) >>= fun a => Pure.pure (f a))
      ((liftM x : BlockM α) >>= fun a => Pure.pure (f a)) :=
  of_bind h fun _ _ _ => pure rfl

lemma foldlM {ι : Type} {R : ι → ι → Prop} {items items' : List ι} (h : List.Forall₂ R items items')
    {step step' : α → ι → BlockM α}
    (hstep : ∀ later a b item item', C.Later world later → P later a b → R item item' →
      item ∈ items → item' ∈ items' → C.HoldsBlock V later (step a item) (step' b item') P)
    {start start' : α} (hstart : P world start start') :
    C.HoldsBlock V world (items.foldlM step start) (items'.foldlM step' start') P := by
  induction h generalizing world start start' with
  | nil => exact pure hstart
  | @cons item item' items items' hfirst _ ih =>
    rw [List.foldlM_cons, List.foldlM_cons]
    refine bind (hstep world _ _ _ _ (C.later_refl world) hstart hfirst List.mem_cons_self
      List.mem_cons_self) fun middle a b hmiddle hab => ih ?_ hab
    intro later a b item item' hlater hab hitem hmem hmem'
    exact hstep later a b item item' (C.later_trans hmiddle hlater) hab hitem
      (List.mem_cons_of_mem _ hmem) (List.mem_cons_of_mem _ hmem')

/-- Like assignments, and what is done with them. -/
lemma ofNode_bind {R : Node → Node → Prop} {node node' : Node} (like : Node.Likeness R)
    (h : R node node') {next next' : Assignment → BlockM β}
    (hnext : ∀ a a', Assignment.ofNode node = .ok a → Assignment.ofNode node' = .ok a' → a.Like R a' →
      C.HoldsBlock V world (next a) (next' a') Q) :
    C.HoldsBlock V world ((liftM (Assignment.ofNode node) : BlockM Assignment) >>= next)
      ((liftM (Assignment.ofNode node') : BlockM Assignment) >>= next') Q := by
  rcases Assignment.alike_ofNode like h with ⟨e, he, he'⟩ | ⟨a, a', ha, ha', hsame⟩
  · rw [he, he']
    exact throw_bind ((Assignment.direct_ofNode node).isLocal e he)
  · have hnext := hnext a a' ha ha' hsame
    rw [ha, ha']
    exact hnext

end HoldsBlock

/-- What is passed over on both sides keeps lists related. -/
def KeptByWarnings (V : List Warning → List Warning → Prop) : Prop :=
  ∀ passed passed' warning, V passed passed' → V (passed ++ [warning]) (passed' ++ [warning])

lemma warn (hV : KeptByWarnings V) (warning : Warning) :
    C.SameBlock V world (BlockM.warn warning) (BlockM.warn warning) :=
  fun passed passed' hpassed => C.pure ⟨rfl, hV passed passed' warning hpassed⟩

/-- Something is passed over, and all else stays. -/
lemma warn_bind (hV : KeptByWarnings V) (warning : Warning) (a : α) :
    C.SameBlock V world (BlockM.warn warning >>= fun _ => Pure.pure a)
      (BlockM.warn warning >>= fun _ => Pure.pure a) :=
  .bind (warn hV warning) fun _ _ _ _ _ => .pure rfl

namespace Grounds

variable {R : Node → Node → Prop} {resolve resolve' : TypeScopeId → String → TypeM FieldType}
  {build build' : TypeScopeId → Node → TypeM FieldType}
  {outer inner inside : C.World → TypeScopeId → TypeScopeId → Node → Node → Prop}
  {s s' : TypeScopeId} {b b' node node' : Node} {a a' : Assignment}

section

variable (G : Grounds C R resolve resolve' build build' outer inner inside)

include G

/-! ## Parts of blocks -/

/-- Two assignments that are like each other, in blocks that have been opened. -/
structure Assigned (G : Grounds C R resolve resolve' build build' outer inner inside) (world : C.World)
    (s s' : TypeScopeId) (b b' : Node) (a a' : Assignment) : Prop where
  inside : inside world s s' b b'
  like : a.Like R a'
  node : ∃ node ∈ BlockM.assignmentNodes b, Assignment.ofNode node = .ok a
  node' : ∃ node' ∈ BlockM.assignmentNodes b', Assignment.ofNode node' = .ok a'

lemma layoutOf (h : G.Assigned world s s' b b' a a') :
    C.Same world (BlockM.layoutOf build s a) (BlockM.layoutOf build' s' a') := by
  obtain ⟨node, hnode, ha⟩ := h.node
  obtain ⟨node', hnode', ha'⟩ := h.node'
  unfold BlockM.layoutOf
  rw [← h.like.key_eq]
  rcases Assignment.alike_type G.like h.like with ⟨e, he, he'⟩ | ⟨m, m', hm, hm', hsame⟩
  · rw [he, he']
    exact throw_bind (a.direct_type.isLocal e he)
  · have hinner := G.member h.inside (.layout hnode ha hm) (.layout hnode' ha' hm') hsame
    have hbuild := buildType G.like (G.built hinner) (Assignment.like_declarator? G.like h.like)
    have hknown (m : Node) (next : Node → TypeM FieldType) :
        (liftM (Except.ok m : Except SchemaError Node) : TypeM Node) >>= next = next m := rfl
    rw [hm, hm', hknown, hknown]
    refine C.bind hbuild fun later t t' _ heq => ?_
    subst heq
    split
    · exact C.pure rfl
    · exact C.invalid _

lemma assignmentNodes (hlike : R b b') :
    List.Forall₂ R (BlockM.assignmentNodes b) (BlockM.assignmentNodes b') := by
  refine G.like.filter (p := fun kind => kind = .ctfExpressionVal || kind = .ctfExpressionType) hlike
    fun kind hkind => ?_
  obtain rfl | rfl : kind = .ctfExpressionVal ∨ kind = .ctfExpressionType := by simpa using hkind
  · rfl
  · rfl

lemma readScoped (hlike : R b b') {start : α}
    (hopen : C.Holds world (openBody TypeTable.rootScope b) (openBody TypeTable.rootScope b')
      fun later t t' => inside later t t' b b')
    {assign assign' : TypeScopeId → α → NodeKind → Assignment → BlockM α}
    (hassign : ∀ later s s' draft kind a a', G.Assigned later s s' b b' a a' →
      C.SameBlock V later (assign s draft kind a) (assign' s' draft kind a')) :
    C.SameBlock V world (BlockM.readScoped resolve b start assign)
      (BlockM.readScoped resolve' b' start assign') := by
  have hread (resolve : TypeScopeId → String → TypeM FieldType) (b : Node)
      (assign : TypeScopeId → α → NodeKind → Assignment → BlockM α) :
      BlockM.readScoped resolve b start assign =
        (liftM (openBody TypeTable.rootScope b) : BlockM TypeScopeId) >>= fun scope => do
          let result ← (BlockM.assignmentNodes b).foldlM
            (fun draft node => do assign scope draft node.kind (← Assignment.ofNode node)) start
          TypeM.resolveAll resolve scope
          return result := by
    simp only [BlockM.readScoped, openBody, liftM_bind, liftM_pure, bind_assoc, pure_bind]
  rw [hread, hread]
  refine .bind (.lift hopen) fun later t t' _ hinside => ?_
  refine .bind (P := fun _ result result' => result = result') ?_
    fun later result result' hlater heq => ?_
  · refine .foldlM (G.assignmentNodes hlike)
      (fun later draft draft' node node' hlater heq hnode hmem hmem' => ?_) rfl
    subst heq
    refine .ofNode_bind G.like hnode fun a a' ha ha' hsame => ?_
    rw [(G.like.rearranged hnode).kind_eq]
    exact hassign later t t' draft _ a a'
      ⟨G.inside_later hlater hinside, hsame, ⟨node, hmem, ha⟩, ⟨node', hmem', ha'⟩⟩
  · subst heq
    exact .bind (.lift (G.resolvedAll (G.inside_later hlater hinside))) fun _ _ _ _ _ => .pure rfl

/-! ## Trace, streams and events -/

section Blocks

variable (hV : KeptByWarnings V)

include hV

lemma assignTrace (trace : TraceBlock) (kind : NodeKind) (h : G.Assigned world s s' b b' a a') :
    C.SameBlock V world (BlockM.assignTrace build s trace kind a)
      (BlockM.assignTrace build' s' trace kind a') := by
  have hlike := h.like.rearranged G.like
  unfold BlockM.assignTrace
  rw [← hlike.key_eq, ← hlike.unsigned_eq, ← BlockM.uuidOf_eq hlike]
  split
  · exact .of_bind_pure a.direct_unsigned.isLocal _
  · exact .of_bind_pure a.direct_unsigned.isLocal _
  · exact .of_bind_pure (direct_uuidOf a).isLocal _
  · exact .pure rfl
  · exact .lift_bind_pure (G.layoutOf h) _
  · exact warn_bind hV _ _

lemma readTrace (hlike : R b b')
    (hopen : C.Holds world (openBody TypeTable.rootScope b) (openBody TypeTable.rootScope b')
      fun later t t' => inside later t t' b b') :
    C.SameBlock V world (BlockM.readTrace resolve build b)
      (BlockM.readTrace resolve' build' b') := by
  refine .bind (G.readScoped hlike hopen fun later s s' draft kind a a' h =>
    G.assignTrace hV draft kind h) fun later trace trace' _ heq => ?_
  subst heq
  unfold BlockM.checkMajor
  split
  · split
    · exact .pure rfl
    · exact warn_bind hV _ _
  · exact .pure rfl

lemma assignStream (stream : StreamSchema) (kind : NodeKind) (h : G.Assigned world s s' b b' a a') :
    C.SameBlock V world (BlockM.assignStream build s stream kind a)
      (BlockM.assignStream build' s' stream kind a') := by
  have hlike := h.like.rearranged G.like
  unfold BlockM.assignStream
  rw [← hlike.key_eq, ← hlike.unsigned_eq]
  split
  · exact .of_bind_pure a.direct_unsigned.isLocal _
  · exact .lift_bind_pure (G.layoutOf h) _
  · exact .lift_bind_pure (G.layoutOf h) _
  · exact .lift_bind_pure (G.layoutOf h) _
  · exact warn_bind hV _ _

lemma assignEvent (event : EventSchema) (kind : NodeKind) (h : G.Assigned world s s' b b' a a') :
    C.SameBlock V world (BlockM.assignEvent build s event kind a)
      (BlockM.assignEvent build' s' event kind a') := by
  have hlike := h.like.rearranged G.like
  unfold BlockM.assignEvent
  rw [← hlike.key_eq, ← hlike.unsigned_eq, ← hlike.signed_eq, ← hlike.string_eq]
  split
  · exact .of_bind_pure a.direct_string.isLocal _
  · exact .of_bind_pure a.direct_unsigned.isLocal _
  · exact .of_bind_pure a.direct_unsigned.isLocal _
  · exact .of_bind_pure a.direct_signed.isLocal _
  · exact .of_bind_pure a.direct_string.isLocal _
  · exact .lift_bind_pure (G.layoutOf h) _
  · exact .lift_bind_pure (G.layoutOf h) _
  · exact warn_bind hV _ _

lemma readEvent (hlike : R b b')
    (hopen : C.Holds world (openBody TypeTable.rootScope b) (openBody TypeTable.rootScope b')
      fun later t t' => inside later t t' b b') :
    C.SameBlock V world (BlockM.readEvent resolve build b)
      (BlockM.readEvent resolve' build' b') := by
  refine .bind (G.readScoped hlike hopen fun later s s' draft kind a a' h =>
    G.assignEvent hV draft kind h) fun later event event' _ heq => ?_
  subst heq
  dsimp only
  split
  · exact .throw_bind (by trivial)
  · exact .pure rfl

/-! ## Clocks and environment -/

omit G in
lemma assignClock (draft : BlockM.ClockDraft) (a : Assignment) :
    C.SameBlock V world (BlockM.assignClock draft a) (BlockM.assignClock draft a) := by
  unfold BlockM.assignClock
  split
  · exact .of_bind_pure a.direct_string.isLocal _
  · exact .of_bind_pure (direct_uuidOf a).isLocal _
  · exact .of_bind_pure a.direct_string.isLocal _
  · refine .of_bind a.direct_unsigned.isLocal fun later frequency _ => ?_
    dsimp only
    split
    · exact .throw_bind (by trivial)
    · exact .pure rfl
  · exact .of_bind_pure a.direct_signed.isLocal _
  · exact .of_bind_pure a.direct_signed.isLocal _
  · exact .of_bind_pure a.direct_unsigned.isLocal _
  · exact .of_bind_pure a.direct_boolean.isLocal _
  · exact warn_bind hV _ _

lemma readClock (hlike : R node node') :
    C.SameBlock V world (BlockM.readClock node) (BlockM.readClock node') := by
  refine .bind (P := fun _ draft draft' => draft = draft') ?_ fun later draft draft' _ heq => ?_
  · refine .foldlM (G.like.childrenOf hlike rfl) (fun later draft draft' n n' _ heq hsame _ _ => ?_) rfl
    subst heq
    refine .ofNode_bind G.like hsame fun a a' _ _ hassign => ?_
    rw [← BlockM.assignClock_eq draft (hassign.rearranged G.like)]
    exact assignClock hV draft a
  · subst heq
    dsimp only
    split
    · exact .pure rfl
    · exact .throw trivial

omit hV in
lemma readEnv (env : Dictionary String EnvValue) (hlike : R node node') :
    C.SameBlock V world (BlockM.readEnv env node) (BlockM.readEnv env node') := by
  refine .foldlM (G.like.childrenOf hlike rfl) (fun later env env' n n' _ heq hsame _ _ => ?_) rfl
  subst heq
  refine .ofNode_bind G.like hsame fun a a' _ _ hassign => ?_
  rw [← hassign.key_eq, ← BlockM.envValueOf_eq (hassign.rearranged G.like)]
  exact .of_bind_pure (direct_envValueOf a).isLocal _

/-! ## All blocks -/

/-- Like nodes under the root are read alike. -/
lemma readNode (blocks : Blocks) (hlike : R node node')
    (hopen : node.kind.isScope = true →
      C.Holds world (openBody TypeTable.rootScope node) (openBody TypeTable.rootScope node')
        fun later t t' => inside later t t' node node') :
    C.SameBlock V world (BlockM.readNode resolve build blocks node)
      (BlockM.readNode resolve' build' blocks node') := by
  unfold BlockM.readNode
  rw [← (G.like.rearranged hlike).kind_eq]
  split
  · rename_i hkind
    split
    · exact .throw_bind (by trivial)
    · refine .bind (G.readTrace hV hlike (hopen (by rw [hkind]; rfl))) fun _ _ _ _ heq => ?_
      exact .pure (by rw [heq])
  · rename_i hkind
    refine .bind (G.readScoped hlike (hopen (by rw [hkind]; rfl)) fun later s s' draft kind a a' h =>
      G.assignStream hV draft kind h) fun _ _ _ _ heq => ?_
    exact .pure (by rw [heq])
  · rename_i hkind
    refine .bind (G.readEvent hV hlike (hopen (by rw [hkind]; rfl))) fun _ _ _ _ heq => ?_
    exact .pure (by rw [heq])
  · refine .bind (G.readClock hV hlike) fun _ clock _ _ heq => ?_
    subst heq
    dsimp only
    split
    · exact .throw_bind (by trivial)
    · exact .pure rfl
  · refine .bind (G.readEnv _ hlike) fun _ _ _ _ heq => ?_
    exact .pure (by rw [heq])
  · exact warn_bind hV _ _
  · exact .pure rfl
  · exact .pure rfl
  · exact .pure rfl
  · exact .throw trivial

/-- **Like trees are read alike**, when the names that are declared under the root have been entered. -/
theorem readEntered {root root' : Node} (hlike : R root root')
    (hinside : inside world TypeTable.rootScope TypeTable.rootScope root root')
    (hopen : ∀ later node node', inside later TypeTable.rootScope TypeTable.rootScope root root' →
      R node node' → node ∈ Node.others root.children → node' ∈ Node.others root'.children →
      node.kind.isScope = true →
      C.Holds later (openBody TypeTable.rootScope node) (openBody TypeTable.rootScope node')
        fun later t t' => inside later t t' node node') :
    C.SameBlock V world (BlockM.readEntered resolve build root)
      (BlockM.readEntered resolve' build' root') := by
  refine .bind (P := fun _ blocks blocks' => blocks = blocks') ?_
    fun later blocks blocks' hlater heq => ?_
  · rw [BlockM.foldlM_readNode_others resolve, BlockM.foldlM_readNode_others resolve']
    refine .foldlM (P := fun _ blocks blocks' => blocks = blocks') (G.like.others hlike)
      (fun later blocks blocks' node node' hlater heq hnode hmem hmem' => ?_) rfl
    subst heq
    exact G.readNode hV blocks hnode
      (hopen later node node' (G.inside_later hlater hinside) hnode hmem hmem')
  · subst heq
    exact .bind (.lift (G.resolvedAll (G.inside_later hlater hinside))) fun _ _ _ _ _ => .pure rfl

end Blocks

end

end Grounds

end Comparison

end CommonTrace
