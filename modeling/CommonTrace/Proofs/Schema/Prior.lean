import CommonTrace.Proofs.Schema.BlockValues
import CommonTrace.Proofs.Schema.Faults

/-!
# Everything is read before the paths are checked

Types and blocks are read without looking for the faults that the check of the paths looks for (`Prior`).  So
when metadata is refused with one of these, all blocks have been read and all events bound: there is metadata
(`Metadata.unchecked`), and it is the check that stops at it (`Metadata.exists_unchecked_of_ofTree`).
-/

namespace CommonTrace

open Tsdl

/-- Whatever stops the reader, it is no fault of the check. -/
abbrev Prior {α : Type} (x : Except SchemaError α) : Prop :=
  FailsBy (¬·.IsOfCheck) x

lemma Direct.prior {α : Type} {x : Except SchemaError α} (h : Direct x) : Prior x :=
  h.mono fun _ => SchemaError.IsDirect.not_isOfCheck

/-! ## Building types -/

namespace TypeM

/-- Whatever table it is performed in, the step is not stopped by a fault of the check. -/
abbrev Prior {α : Type} (step : TypeM α) : Prop :=
  step.FailsBy (¬·.IsOfCheck)

lemma Direct.prior {α : Type} {step : TypeM α} (h : step.Direct) : step.Prior :=
  h.mono fun _ => SchemaError.IsDirect.not_isOfCheck

section Compound

variable {resolve : TypeScopeId → String → TypeM FieldType}
  {build : TypeScopeId → Node → TypeM FieldType}
  (hresolve : ∀ scope name, (resolve scope name).Prior)
  (hbuild : ∀ scope specifiers, (build scope specifiers).Prior)

include hbuild in
lemma prior_buildType (scope : TypeScopeId) (specifiers : Node) (declarator : Option Node) :
    (buildType build scope specifiers declarator).Prior := by
  refine .bind (hbuild scope specifiers) fun t => ?_
  cases declarator with
  | none => exact .pure t
  | some declarator => exact (direct_applyDeclarator t declarator).prior

include hbuild in
lemma prior_resolveNamed (scope : TypeScopeId) (name : String) :
    (resolveNamed build scope name).Prior := by
  refine .get_bind fun table => ?_
  split
  · exact .throw not_false
  · exact .pure _
  · exact .throw not_false
  · exact .bind (.modifyGet _) fun _ => .bind (prior_buildType hbuild _ _ _) fun t =>
      .bind (.modifyGet _) fun _ => .pure t

include hresolve in
lemma prior_resolveAll (scope : TypeScopeId) : (resolveAll resolve scope).Prior :=
  .get_bind fun _ => .forM _ fun name => .bind (hresolve scope name) fun _ => .pure ()

include hresolve hbuild in
lemma prior_containerType (scope : TypeScopeId) (node : Node) :
    (containerType resolve build scope node).Prior := by
  unfold containerType
  split
  · refine .bind (direct_require _ _ _).prior fun specifiers => .bind (hbuild scope specifiers) fun t => ?_
    cases t with
    | integer t => exact .pure t
    | _ => exact .throw not_false
  · refine .bind (hresolve scope "int") fun t => ?_
    cases t with
    | integer t => exact .pure t
    | _ => exact .throw not_false

include hresolve hbuild in
lemma prior_buildEnum (scope : TypeScopeId) (node : Node) :
    (buildEnum resolve build scope node).Prior := by
  refine .bind (direct_describe _ _ _ _ _).prior fun description => ?_
  cases description with
  | reference name => exact hresolve scope name
  | definition name body =>
    refine .bind (prior_containerType hresolve hbuild scope node) fun container => ?_
    have hranges := TypeM.FailsBy.foldlM (body.childrenOf .enumerator) ([], 0)
      fun before enumerator => (direct_addEnumerator container before enumerator).prior
    refine .bind hranges fun ranges => ?_
    exact .bind (direct_makeKnown scope name _).prior fun _ => .pure _

include hbuild in
lemma prior_addMember (scope : TypeScopeId) (owner : String) (specifiers : Node)
    (before : List (String × FieldType)) (declarator : Node) :
    (addMember build scope owner specifiers before declarator).Prior := by
  refine .bind (direct_declaratorName declarator).prior fun name => ?_
  have hrest : (buildType build scope specifiers (some declarator) >>= fun t =>
      checkTagged name t >>= fun _ => pure (before ++ [(name, t)])).Prior :=
    .bind (prior_buildType hbuild _ _ _) fun t => .bind (direct_checkTagged name t).prior fun _ => .pure _
  exact .ite (.bind (.throw not_false) fun _ => hrest) hrest

include hbuild in
lemma prior_addMembers (scope : TypeScopeId) (owner : String) (before : List (String × FieldType))
    (declaration : Node) : (addMembers build scope owner before declaration).Prior := by
  refine .bind (direct_require _ _ _).prior fun specifiers => ?_
  refine .bind (direct_require _ _ _).prior fun declarators => ?_
  exact .foldlM _ _ (prior_addMember hbuild scope owner specifiers)

include hresolve hbuild in
lemma prior_buildMembers (outer : TypeScopeId) (owner : String) (body : Node) :
    (buildMembers resolve build outer owner body).Prior := by
  refine .bind (.modifyGet _) fun scope => .bind (direct_enterAll scope body.children).prior fun _ => ?_
  refine .bind (.foldlM _ _ (prior_addMembers hbuild scope owner)) fun members => ?_
  exact .bind (prior_resolveAll hresolve scope) fun _ => .pure members

include hresolve hbuild in
lemma prior_buildStruct (scope : TypeScopeId) (node : Node) :
    (buildStruct resolve build scope node).Prior := by
  refine .bind (direct_describe _ _ _ _ _).prior fun description => ?_
  cases description with
  | reference name => exact hresolve scope name
  | definition name body =>
    refine .bind (direct_declaredAlignment node).prior fun alignment => ?_
    refine .bind (prior_buildMembers hresolve hbuild scope "struct" body) fun fields => ?_
    exact .bind (direct_makeKnown scope name _).prior fun _ => .pure _

include hresolve hbuild in
lemma prior_buildVariant (scope : TypeScopeId) (node : Node) :
    (buildVariant resolve build scope node).Prior := by
  refine .bind (direct_declaredTag node).prior fun tag => ?_
  refine .bind (direct_describe _ _ _ _ _).prior fun description => ?_
  cases description with
  | reference name => exact .bind (hresolve scope name) fun _ => .pure _
  | definition name body =>
    refine .bind (prior_buildMembers hresolve hbuild scope "variant" body) fun alternatives => ?_
    have hrest : (makeKnown scope name (.variant tag alternatives) >>= fun _ =>
        pure (FieldType.variant tag alternatives)).Prior :=
      .bind (direct_makeKnown scope name _).prior fun _ => .pure _
    exact .ite (.bind (.throw not_false) fun _ => hrest) hrest

include hresolve hbuild in
lemma prior_interpret (scope : TypeScopeId) (specifiers : Node) :
    (interpret resolve build scope specifiers).Prior := by
  unfold interpret
  split
  · exact .throw not_false
  · split
    · exact .bind (direct_integerType _).prior fun _ => .pure _
    · exact .bind (direct_floatType _).prior fun _ => .pure _
    · exact .bind (direct_stringType _).prior fun _ => .pure _
    · exact prior_buildEnum hresolve hbuild scope _
    · exact prior_buildStruct hresolve hbuild scope _
    · exact prior_buildVariant hresolve hbuild scope _
    · exact .bind (direct_wordsName specifiers).prior fun name => hresolve scope name
    · exact .throw not_false

end Compound

/-- **Building types** never stops with a fault of the check, however far the steps are nested. -/
lemma prior_buildSpecifiers (depth : ℕ) (scope : TypeScopeId) (specifiers : Node) :
    (buildSpecifiers depth scope specifiers).Prior := by
  induction depth generalizing scope specifiers with
  | zero => exact .throw not_false
  | succ depth ih => exact prior_interpret (prior_resolveNamed ih) ih scope specifiers

end TypeM

/-! ## Reading blocks -/

namespace BlockM

/-- Whatever has been passed over before, the step is not stopped by a fault of the check. -/
abbrev Prior {α : Type} (step : BlockM α) : Prop :=
  step.FailsBy (¬·.IsOfCheck)

lemma Direct.prior {α : Type} {step : BlockM α} (h : step.Direct) : step.Prior :=
  h.mono fun _ => SchemaError.IsDirect.not_isOfCheck

section Scoped

variable {resolve : TypeScopeId → String → TypeM FieldType}
  {build : TypeScopeId → Node → TypeM FieldType}
  (hresolve : ∀ scope name, (resolve scope name).Prior)
  (hbuild : ∀ scope specifiers, (build scope specifiers).Prior)

include hbuild in
lemma prior_layoutOf (scope : TypeScopeId) (a : Assignment) : (layoutOf build scope a).Prior :=
  .bind (.lift a.direct_type.prior) fun _ => .bind (TypeM.prior_buildType hbuild _ _ _) fun _ =>
    .ite (.pure _) (.throw not_false)

include hresolve in
lemma prior_readScoped {α : Type} (block : Node) (start : α)
    {assign : TypeScopeId → α → NodeKind → Assignment → BlockM α}
    (hassign : ∀ scope draft kind a, (assign scope draft kind a).Prior) :
    (readScoped resolve block start assign).Prior := by
  refine .bind (.lift (.modifyGet _)) fun scope => ?_
  refine .bind (.lift (TypeM.direct_enterAll scope _).prior) fun _ => ?_
  refine .bind (.foldlM _ _ fun draft node => .bind (.read (Assignment.direct_ofNode node).prior)
    (hassign scope draft node.kind)) fun result => ?_
  exact .bind (.lift (TypeM.prior_resolveAll hresolve scope)) fun _ => .pure result

include hbuild in
lemma prior_assignTrace (scope : TypeScopeId) (trace : TraceBlock) (kind : NodeKind) (a : Assignment) :
    (assignTrace build scope trace kind a).Prior := by
  unfold assignTrace
  split
  · exact .bind (.read a.direct_unsigned.prior) fun _ => .pure _
  · exact .bind (.read a.direct_unsigned.prior) fun _ => .pure _
  · exact .bind (.read (direct_uuidOf a).prior) fun _ => .pure _
  · exact .pure _
  · exact .bind (.lift (prior_layoutOf hbuild scope a)) fun _ => .pure _
  · exact .bind (.warn _) fun _ => .pure _

include hresolve hbuild in
lemma prior_readTrace (block : Node) : (readTrace resolve build block).Prior := by
  refine .bind (prior_readScoped hresolve block _ (prior_assignTrace hbuild)) fun trace => ?_
  refine .bind ?_ fun _ => .pure trace
  unfold checkMajor
  split
  · exact .ite (.pure ()) (.warn _)
  · exact .pure ()

include hbuild in
lemma prior_assignStream (scope : TypeScopeId) (stream : StreamSchema) (kind : NodeKind)
    (a : Assignment) : (assignStream build scope stream kind a).Prior := by
  unfold assignStream
  split
  · exact .bind (.read a.direct_unsigned.prior) fun _ => .pure _
  · exact .bind (.lift (prior_layoutOf hbuild scope a)) fun _ => .pure _
  · exact .bind (.lift (prior_layoutOf hbuild scope a)) fun _ => .pure _
  · exact .bind (.lift (prior_layoutOf hbuild scope a)) fun _ => .pure _
  · exact .bind (.warn _) fun _ => .pure _

include hbuild in
lemma prior_assignEvent (scope : TypeScopeId) (event : EventSchema) (kind : NodeKind)
    (a : Assignment) : (assignEvent build scope event kind a).Prior := by
  unfold assignEvent
  split
  · exact .bind (.read a.direct_string.prior) fun _ => .pure _
  · exact .bind (.read a.direct_unsigned.prior) fun _ => .pure _
  · exact .bind (.read a.direct_unsigned.prior) fun _ => .pure _
  · exact .bind (.read a.direct_signed.prior) fun _ => .pure _
  · exact .bind (.read a.direct_string.prior) fun _ => .pure _
  · exact .bind (.lift (prior_layoutOf hbuild scope a)) fun _ => .pure _
  · exact .bind (.lift (prior_layoutOf hbuild scope a)) fun _ => .pure _
  · exact .bind (.warn _) fun _ => .pure _

include hresolve hbuild in
lemma prior_readEvent (block : Node) : (readEvent resolve build block).Prior :=
  .bind (prior_readScoped hresolve block _ (prior_assignEvent hbuild)) fun event =>
    .ite (.bind (.throw not_false) fun _ => .pure event) (.pure event)

include hresolve hbuild in
lemma prior_readNode (blocks : Blocks) (node : Node) : (readNode resolve build blocks node).Prior := by
  have htrace : (readTrace resolve build node >>= fun trace =>
      pure { blocks with trace := some trace }).Prior :=
    .bind (prior_readTrace hresolve hbuild node) fun _ => .pure _
  unfold readNode
  split
  · exact .ite (.bind (.throw not_false) fun _ => htrace) htrace
  · exact .bind (prior_readScoped hresolve node _ (prior_assignStream hbuild)) fun _ => .pure _
  · exact .bind (prior_readEvent hresolve hbuild node) fun _ => .pure _
  · exact .bind (direct_readClock node).prior fun _ =>
      .ite (.bind (.throw not_false) fun _ => .pure _) (.pure _)
  · exact .bind (direct_readEnv _ node).prior fun _ => .pure _
  · exact .bind (.warn _) fun _ => .pure _
  · exact .pure _
  · exact .pure _
  · exact .pure _
  · exact .throw not_false

include hresolve hbuild in
lemma prior_readAll (root : Node) : (readAll resolve build root).Prior := by
  refine .bind (.lift (TypeM.direct_enterAll _ _).prior) fun _ => ?_
  refine .bind (.foldlM _ _ (prior_readNode hresolve hbuild)) fun blocks => ?_
  exact .bind (.lift (TypeM.prior_resolveAll hresolve _)) fun _ => .pure blocks

end Scoped

end BlockM

/-! ## Metadata before the check -/

namespace Metadata

lemma prior_readBlocks (root : Node) : Prior (readBlocks root) := by
  have hbuild := TypeM.prior_buildSpecifiers (root.weight + 1)
  have hread := BlockM.prior_readAll (TypeM.prior_resolveNamed hbuild) hbuild root
  unfold readBlocks
  split
  · exact .error not_false
  · refine (direct_traceByteOrder? root).prior.bind fun declared => (hread _ _).bind fun read => ?_
    exact (direct_checkClocks _ _).prior.bind fun _ => .pure _

/-- The metadata that a syntax tree describes, before the paths are checked. -/
def unchecked (root : Node) : Except SchemaError Metadata := do
  let (byteOrder, blocks, warnings) ← readBlocks root
  let streams ← bindEvents blocks.streams blocks.events
  return ofBlocks byteOrder blocks streams warnings

lemma ofTree_eq_unchecked_bind (root : Node) :
    ofTree root = unchecked root >>= fun metadata => metadata.checkPaths >>= fun _ => pure metadata := by
  simp only [ofTree_eq_readBlocks_bind, unchecked, bind_assoc, pure_bind]

lemma prior_unchecked (root : Node) : Prior (unchecked root) :=
  (prior_readBlocks root).bind fun _ => (direct_bindEvents _ _).prior.bind fun _ => .pure _

/-- **A fault of the check is found by the check**, in metadata that has been read. -/
theorem exists_unchecked_of_ofTree {root : Node} {e : SchemaError} (h : ofTree root = .error e)
    (he : e.IsOfCheck) : ∃ metadata, unchecked root = .ok metadata ∧ metadata.checkPaths = .error e := by
  rw [ofTree_eq_unchecked_bind] at h
  rcases error_of_bind_eq_error h with hbefore | ⟨metadata, hmetadata, hcheck⟩
  · exact absurd he (prior_unchecked root e hbefore)
  · rcases error_of_bind_eq_error hcheck with hcheck | ⟨_, -, hdone⟩
    · exact ⟨metadata, hmetadata, hcheck⟩
    · cases hdone

end Metadata

end CommonTrace
