import CommonTrace.Proofs.Schema.Steps
import CommonTrace.Schema.OfTree

/-!
# What stops the reader

Metadata is read in steps of three kinds: some have no table, some build types in a table, and some read
blocks besides.  `FailsBy` says of a step of each kind by which faults it is stopped; this is kept when steps
follow each other.

Some faults are not told where they stand.  That a type is made of itself, or that types refer to each other
in too long a chain, is found on the way from name to name.  That a path leads nowhere, that a variant has no
tag where it is used, and that something takes no bits can be told of whole blocks only; these are the faults
of the check of the paths, which comes when everything has been read (`SchemaError.IsOfCheck`).  The steps
that do neither follow names nor check paths are stopped by other faults (`Direct`).
-/

namespace CommonTrace

open Tsdl

namespace SchemaError

/-- The fault is one that the check of the paths looks for. -/
def IsOfCheck : SchemaError → Prop
  | .unresolvedPath _ _ | .invalid (.variantUntagged _) | .invalid (.elementsWithoutBits _ _)
  | .invalid (.eventWithoutBits _ _) => True
  | _ => False

/-- The fault is told where it stands. -/
def IsDirect : SchemaError → Prop
  | .recursiveType _ | .chainTooLong => False
  | e => ¬e.IsOfCheck

lemma IsDirect.not_isOfCheck {e : SchemaError} (h : e.IsDirect) : ¬e.IsOfCheck := by
  cases e with
  | recursiveType | chainTooLong => exact not_false
  | _ => exact h

end SchemaError

/-! ## Steps and their faults -/

/-- Whatever stops the reader, it is a fault of this kind. -/
def FailsBy {α : Type} (kind : SchemaError → Prop) (x : Except SchemaError α) : Prop :=
  ∀ e, x = .error e → kind e

namespace FailsBy

variable {α β ι : Type} {kind kind' : SchemaError → Prop} {x y : Except SchemaError α}

lemma mono (h : FailsBy kind x) (hkind : ∀ e, kind e → kind' e) : FailsBy kind' x :=
  fun e herror => hkind e (h e herror)

lemma ok (a : α) : FailsBy kind (.ok a) :=
  nofun

lemma pure (a : α) : FailsBy kind (Pure.pure a) :=
  nofun

lemma error {e : SchemaError} (h : kind e) : FailsBy kind (.error e : Except _ α) := by
  rintro _ ⟨⟩
  exact h

lemma bind {f : α → Except SchemaError β} (hx : FailsBy kind x) (hf : ∀ a, FailsBy kind (f a)) :
    FailsBy kind (x >>= f) := by
  intro e herror
  rcases error_of_bind_eq_error herror with h | ⟨a, -, h⟩
  · exact hx e h
  · exact hf a e h

lemma map (f : α → β) (hx : FailsBy kind x) : FailsBy kind (f <$> x) := by
  rw [map_eq_pure_bind]
  exact hx.bind fun _ => pure _

lemma ite {c : Prop} [Decidable c] (hx : FailsBy kind x) (hy : FailsBy kind y) :
    FailsBy kind (if c then x else y) := by
  split
  · exact hx
  · exact hy

lemma foldlM {step : α → ι → Except SchemaError α} (items : List ι) (start : α)
    (hstep : ∀ a item, FailsBy kind (step a item)) : FailsBy kind (items.foldlM step start) := by
  induction items generalizing start with
  | nil => exact pure start
  | cons item items ih =>
    rw [List.foldlM_cons]
    exact (hstep start item).bind ih

lemma mapM {f : ι → Except SchemaError α} (items : List ι) (hf : ∀ item, FailsBy kind (f item)) :
    FailsBy kind (items.mapM f) := by
  induction items with
  | nil => exact pure []
  | cons item items ih =>
    rw [List.mapM_cons]
    exact (hf item).bind fun _ => ih.bind fun _ => pure _

end FailsBy

namespace TypeM

/-- Whatever table the step is performed in, what stops it is a fault of this kind. -/
def FailsBy {α : Type} (kind : SchemaError → Prop) (step : TypeM α) : Prop :=
  ∀ table, CommonTrace.FailsBy kind (step table)

namespace FailsBy

variable {α β ι : Type} {kind kind' : SchemaError → Prop} {step step' : TypeM α}

lemma mono (h : step.FailsBy kind) (hkind : ∀ e, kind e → kind' e) : step.FailsBy kind' :=
  fun table => (h table).mono hkind

lemma pure (a : α) : (Pure.pure a : TypeM α).FailsBy kind :=
  fun _ => .pure _

lemma throw {e : SchemaError} (h : kind e) : (MonadExcept.throw e : TypeM α).FailsBy kind :=
  fun _ => .error h

lemma lift {x : Except SchemaError α} (h : CommonTrace.FailsBy kind x) :
    (liftM x : TypeM α).FailsBy kind :=
  fun _ => h.bind fun _ => .pure _

lemma bind {next : α → TypeM β} (h : step.FailsBy kind) (hnext : ∀ a, (next a).FailsBy kind) :
    (step >>= next).FailsBy kind :=
  fun table => (h table).bind fun r => hnext r.1 r.2

lemma get_bind {next : TypeTable → TypeM α} (hnext : ∀ table, (next table).FailsBy kind) :
    ((get : TypeM TypeTable) >>= next).FailsBy kind :=
  fun table => hnext table table

lemma modifyGet (f : TypeTable → α × TypeTable) : (MonadState.modifyGet f : TypeM α).FailsBy kind :=
  fun _ => .pure _

lemma ite {c : Prop} [Decidable c] (h : step.FailsBy kind) (h' : step'.FailsBy kind) :
    (if c then step else step').FailsBy kind := by
  split
  · exact h
  · exact h'

lemma foldlM {step : α → ι → TypeM α} (items : List ι) (start : α)
    (h : ∀ a item, (step a item).FailsBy kind) : (items.foldlM step start).FailsBy kind := by
  induction items generalizing start with
  | nil => exact pure start
  | cons item items ih =>
    rw [List.foldlM_cons]
    exact (h start item).bind ih

lemma forM {step : ι → TypeM Unit} (items : List ι) (h : ∀ item, (step item).FailsBy kind) :
    (items.forM step).FailsBy kind := by
  induction items with
  | nil => exact pure ()
  | cons item items ih => exact (h item).bind fun _ => ih

end FailsBy

end TypeM

namespace BlockM

/-- Whatever has been passed over before, what stops the step is a fault of this kind. -/
def FailsBy {α : Type} (kind : SchemaError → Prop) (step : BlockM α) : Prop :=
  ∀ passed, TypeM.FailsBy kind (step passed)

namespace FailsBy

variable {α β ι : Type} {kind kind' : SchemaError → Prop} {step step' : BlockM α}

lemma mono (h : step.FailsBy kind) (hkind : ∀ e, kind e → kind' e) : step.FailsBy kind' :=
  fun passed => (h passed).mono hkind

lemma pure (a : α) : (Pure.pure a : BlockM α).FailsBy kind :=
  fun passed => .pure (a, passed)

lemma throw {e : SchemaError} (h : kind e) : (MonadExcept.throw e : BlockM α).FailsBy kind :=
  fun _ => .throw h

lemma lift {step : TypeM α} (h : TypeM.FailsBy kind step) : (liftM step : BlockM α).FailsBy kind := by
  intro passed
  change TypeM.FailsBy kind (step >>= fun a => Pure.pure (a, passed))
  exact .bind h fun _ => .pure _

lemma read {x : Except SchemaError α} (h : CommonTrace.FailsBy kind x) :
    (liftM x : BlockM α).FailsBy kind :=
  .lift (.lift h)

lemma bind {next : α → BlockM β} (h : step.FailsBy kind) (hnext : ∀ a, (next a).FailsBy kind) :
    (step >>= next).FailsBy kind :=
  fun passed => .bind (h passed) fun r => hnext r.1 r.2

lemma warn (warning : Warning) : (BlockM.warn warning).FailsBy kind :=
  fun _ => .pure _

lemma ite {c : Prop} [Decidable c] (h : step.FailsBy kind) (h' : step'.FailsBy kind) :
    (if c then step else step').FailsBy kind := by
  split
  · exact h
  · exact h'

lemma foldlM {step : α → ι → BlockM α} (items : List ι) (start : α)
    (h : ∀ a item, (step a item).FailsBy kind) : (items.foldlM step start).FailsBy kind := by
  induction items generalizing start with
  | nil => exact pure start
  | cons item items ih =>
    rw [List.foldlM_cons]
    exact (h start item).bind ih

end FailsBy

end BlockM

/-! ## Nodes and assignments -/

/-- Whatever stops the reader is told where it stands. -/
abbrev Direct {α : Type} (x : Except SchemaError α) : Prop :=
  FailsBy SchemaError.IsDirect x

lemma direct_joinStrings (nodes : List Node) : Direct (joinStrings nodes) := by
  unfold joinStrings
  split
  · exact .error not_false
  · exact .ite (.error not_false) (.pure _)

lemma direct_numberOf (node : Node) : Direct (numberOf node) := by
  unfold numberOf
  split
  · exact .error not_false
  · exact .pure _

lemma direct_onlyNumber (node : Node) : Direct (onlyNumber node) := by
  unfold onlyNumber
  split
  · exact direct_numberOf _
  · exact .error not_false

namespace Assignment

lemma direct_ofNode (node : Node) : Direct (ofNode node) := by
  unfold ofNode
  split
  · exact .error not_false
  · exact .error not_false
  · exact (direct_joinStrings _).bind fun _ => .pure _

lemma direct_ofChildren (node : Node) : Direct (ofChildren node) :=
  .mapM _ direct_ofNode

variable (a : Assignment)

lemma direct_mustBe {α : Type} (expected : Expected) : Direct (a.mustBe expected : Except _ α) :=
  .error not_false

lemma direct_string : Direct a.string := by
  unfold string
  split
  · exact .ok _
  · exact a.direct_mustBe _

lemma direct_number : Direct a.number := by
  unfold number
  split
  · split
    · exact .ok _
    · exact a.direct_mustBe _
  · exact a.direct_mustBe _

lemma direct_unsigned : Direct a.unsigned :=
  a.direct_number.bind fun _ => .ite (.pure _) (a.direct_mustBe _)

lemma direct_signed : Direct a.signed :=
  a.direct_number.bind fun _ => .ite (.pure _) (a.direct_mustBe _)

lemma direct_boolean : Direct a.boolean := by
  unfold boolean
  split
  · exact .ite (.ok _) (.ite (.ok _) (a.direct_mustBe _))
  · refine a.direct_string.bind fun text => ?_
    split
    · exact .pure _
    · exact .pure _
    · exact a.direct_mustBe _

lemma direct_type : Direct a.type := by
  unfold type
  split
  · exact .ok _
  · exact a.direct_mustBe _

end Assignment

lemma direct_uuidOf (a : Assignment) : Direct (BlockM.uuidOf a) := by
  refine a.direct_string.bind fun text => ?_
  split
  · exact .pure _
  · exact .error not_false

lemma direct_envValueOf (a : Assignment) : Direct (BlockM.envValueOf a) := by
  unfold BlockM.envValueOf
  split
  · exact .ok _
  · exact a.direct_string.map _

namespace TypeM

/-- Whatever table the step is performed in, what stops it is told where it stands. -/
abbrev Direct {α : Type} (step : TypeM α) : Prop :=
  step.FailsBy SchemaError.IsDirect

/-! ## Scalar types -/

lemma direct_byteOrderOf (a : Assignment) : (byteOrderOf a).Direct := by
  refine .bind (.lift a.direct_string) fun keyword => .get_bind fun table => ?_
  split
  · exact .pure _
  · exact .throw not_false

lemma direct_alignmentOf (a : Assignment) : (alignmentOf a).Direct := by
  refine .bind (.lift a.direct_number) fun value => ?_
  split
  · exact .pure _
  · exact .throw not_false

lemma direct_baseOf (a : Assignment) : (baseOf a).Direct := by
  unfold baseOf
  split
  · exact .ite (.pure _) (.throw not_false)
  · refine .bind (.lift a.direct_string) fun keyword => ?_
    split <;> first | exact .pure _ | exact .throw not_false

lemma direct_encodingOf (a : Assignment) : (encodingOf a).Direct := by
  refine .bind (.lift a.direct_string) fun keyword => ?_
  split
  · exact .pure _
  · exact .throw not_false

lemma direct_clockOf (a : Assignment) : (clockOf a).Direct := by
  refine .bind (.lift a.direct_string) fun text => ?_
  split
  · exact .pure _
  · exact .throw not_false

lemma direct_warnAttribute (owner key : String) : (warnAttribute owner key).Direct :=
  .modifyGet _

lemma direct_assignInteger (draft : IntegerDraft) (a : Assignment) : (assignInteger draft a).Direct := by
  unfold assignInteger
  split
  · exact .bind (.lift a.direct_unsigned) fun _ => .pure _
  · exact .bind (.lift a.direct_boolean) fun _ => .pure _
  · exact .bind (direct_byteOrderOf a) fun _ => .pure _
  · exact .bind (direct_alignmentOf a) fun _ => .pure _
  · exact .bind (direct_baseOf a) fun _ => .pure _
  · exact .bind (direct_encodingOf a) fun _ => .pure _
  · exact .bind (direct_clockOf a) fun clock => .bind (.modifyGet _) fun _ => .pure _
  · exact .bind (direct_warnAttribute _ _) fun _ => .pure _

lemma direct_integerType (node : Node) : (integerType node).Direct := by
  refine .get_bind fun table => .bind (.lift (Assignment.direct_ofChildren node)) fun assignments => ?_
  refine .bind (.foldlM _ _ direct_assignInteger) fun draft => ?_
  split
  · exact .throw not_false
  · exact .ite (.throw not_false) (.pure _)

lemma direct_assignFloat (draft : FloatDraft) (a : Assignment) : (assignFloat draft a).Direct := by
  unfold assignFloat
  split
  · exact .bind (.lift a.direct_unsigned) fun _ => .pure _
  · exact .bind (.lift a.direct_unsigned) fun _ => .pure _
  · exact .bind (direct_byteOrderOf a) fun _ => .pure _
  · exact .bind (direct_alignmentOf a) fun _ => .pure _
  · exact .bind (direct_warnAttribute _ _) fun _ => .pure _

lemma direct_floatType (node : Node) : (floatType node).Direct := by
  refine .get_bind fun table => .bind (.lift (Assignment.direct_ofChildren node)) fun assignments => ?_
  refine .bind (.foldlM _ _ direct_assignFloat) fun draft => ?_
  split
  · exact .ite (.pure _) (.throw not_false)
  · exact .throw not_false

lemma direct_stringType (node : Node) : (stringType node).Direct := by
  refine .bind (.lift (Assignment.direct_ofChildren node)) fun assignments => ?_
  refine .foldlM _ _ fun encoding a => ?_
  split
  · exact direct_encodingOf a
  · exact .bind (direct_warnAttribute _ _) fun _ => .pure _

/-! ## Names -/

lemma direct_require (node : Node) (kind : NodeKind) (fault : Malformed) :
    (require node kind fault).Direct := by
  unfold require
  split
  · exact .pure _
  · exact .throw not_false

lemma direct_declaratorName (declarator : Node) : (declaratorName declarator).Direct := by
  unfold declaratorName
  split
  · exact .throw not_false
  · exact .ite (.throw not_false) (.pure _)

lemma direct_wordsName (specifiers : Node) : (wordsName specifiers).Direct := by
  unfold wordsName
  split
  · exact .throw not_false
  · exact .pure _

lemma direct_aliasName (aliased : Node) : (aliasName aliased).Direct := by
  unfold aliasName
  split
  · exact direct_wordsName _
  · exact .bind (direct_require _ _ _) direct_declaratorName

lemma direct_enter (scope : TypeScopeId) (name : String) (source : TypeSource) :
    (enter scope name source).Direct := by
  refine .get_bind fun table => .ite (.bind (.throw not_false) fun _ => ?_) ?_
  · exact .modifyGet _
  · exact .modifyGet _

lemma direct_enterDeclared (scope : TypeScopeId) (node : Node) : (enterDeclared scope node).Direct := by
  unfold enterDeclared
  split
  · refine .bind (direct_require _ _ _) fun target => .bind (direct_require _ _ _) fun aliased => ?_
    refine .bind (direct_require _ _ _) fun specifiers => .bind (direct_aliasName aliased) fun name => ?_
    exact direct_enter scope name _
  · refine .bind (direct_require _ _ _) fun specifiers => .bind (direct_require _ _ _) fun declarators => ?_
    refine .forM _ fun declarator => .bind (direct_declaratorName declarator) fun name => ?_
    exact direct_enter scope name _
  · refine .bind (direct_require _ _ _) fun specifiers => ?_
    split
    · exact direct_enter scope _ _
    · exact .pure ()
  · exact .pure ()

lemma direct_enterAll (scope : TypeScopeId) (nodes : List Node) : (enterAll scope nodes).Direct :=
  .forM nodes (direct_enterDeclared scope)

lemma direct_makeKnown (scope : TypeScopeId) (name : Option String) (t : FieldType) :
    (makeKnown scope name t).Direct := by
  cases name with
  | none => exact .pure ()
  | some name => exact .modifyGet _

/-! ## Arrays and sequences -/

lemma direct_withLength (element : FieldType) (length : Node) : (withLength element length).Direct := by
  unfold withLength
  split
  · exact .throw not_false
  · refine .ite (.bind (.lift (direct_numberOf _)) fun n => .ite (.pure _) (.throw not_false)) ?_
    refine .bind (.lift (direct_joinStrings _)) fun text => ?_
    split
    · exact .pure _
    · exact .throw not_false

lemma direct_applyDeclarator (t : FieldType) (declarator : Node) :
    (applyDeclarator t declarator).Direct := by
  have hlengths : ((declarator.childrenOf .length).reverse.foldlM withLength t).Direct :=
    .foldlM _ _ direct_withLength
  exact .ite (.bind (.throw not_false) fun _ => hlengths) hlengths

lemma direct_checkTagged (name : String) (t : FieldType) : (checkTagged name t).Direct := by
  match t with
  | .variant none _ => exact .throw not_false
  | .array element _ | .sequence element _ => exact direct_checkTagged name element
  | .integer _ | .float _ | .string _ | .enum _ | .struct _ _ | .variant (some _) _ => exact .pure ()
termination_by structural t

/-! ## Parts of compound types -/

lemma direct_enumeratorBounds (next : Int) (enumerator : Node) :
    (enumeratorBounds next enumerator).Direct := by
  unfold enumeratorBounds
  split
  · exact .bind (.lift (direct_onlyNumber _)) fun _ => .pure _
  · split
    · refine .bind (.lift (direct_numberOf _)) fun _ => ?_
      exact .bind (.lift (direct_numberOf _)) fun _ => .pure _
    · exact .throw not_false
  · exact .pure _

lemma direct_addEnumerator (container : IntegerType) (before : List LabelRange × Int)
    (enumerator : Node) : (addEnumerator container before enumerator).Direct := by
  refine .bind (.lift (direct_joinStrings _)) fun label => ?_
  refine .bind (direct_enumeratorBounds _ _) fun bounds => ?_
  exact .ite (.bind (.throw not_false) fun _ => .pure _) (.pure _)

lemma direct_describe (node : Node) (word : String) (nameKind bodyKind : NodeKind) (fault : Malformed) :
    (describe node word nameKind bodyKind fault).Direct := by
  unfold describe
  dsimp only
  split
  · exact .pure _
  · exact .pure _
  · exact .throw not_false

lemma direct_declaredAlignment (node : Node) : (declaredAlignment node).Direct := by
  unfold declaredAlignment
  split
  · exact .pure _
  · refine .bind (.lift (direct_onlyNumber _)) fun value => ?_
    split
    · exact .pure _
    · exact .throw not_false

lemma direct_declaredTag (node : Node) : (declaredTag node).Direct := by
  unfold declaredTag
  split
  · exact .pure _
  · refine .bind (.lift (direct_joinStrings _)) fun text => ?_
    split
    · exact .pure _
    · exact .throw not_false

end TypeM

/-! ## Clocks and the environment -/

namespace BlockM

/-- Whatever has been passed over before, what stops the step is told where it stands. -/
abbrev Direct {α : Type} (step : BlockM α) : Prop :=
  step.FailsBy SchemaError.IsDirect

lemma direct_assignClock (draft : ClockDraft) (a : Assignment) : (assignClock draft a).Direct := by
  unfold assignClock
  split
  · exact .bind (.read a.direct_string) fun _ => .pure _
  · exact .bind (.read (direct_uuidOf a)) fun _ => .pure _
  · exact .bind (.read a.direct_string) fun _ => .pure _
  · exact .bind (.read a.direct_unsigned) fun _ =>
      .ite (.bind (.throw not_false) fun _ => .pure _) (.pure _)
  · exact .bind (.read a.direct_signed) fun _ => .pure _
  · exact .bind (.read a.direct_signed) fun _ => .pure _
  · exact .bind (.read a.direct_unsigned) fun _ => .pure _
  · exact .bind (.read a.direct_boolean) fun _ => .pure _
  · exact .bind (.warn _) fun _ => .pure _

lemma direct_readClock (block : Node) : (readClock block).Direct := by
  refine .bind (.foldlM _ _ fun draft node => .bind (.read (Assignment.direct_ofNode node))
    (direct_assignClock draft)) fun draft => ?_
  split
  · exact .pure _
  · exact .throw not_false

lemma direct_readEnv (env : Dictionary String EnvValue) (block : Node) : (readEnv env block).Direct :=
  .foldlM _ _ fun _ node => .bind (.read (Assignment.direct_ofNode node)) fun a =>
    .bind (.read (direct_envValueOf a)) fun _ => .pure _

end BlockM

/-! ## Streams and events -/

lemma direct_addStream (alone : Bool) (streams : Dictionary ℕ StreamSchema) (stream : StreamSchema) :
    Direct (addStream alone streams stream) := by
  have hkey : Direct (stream.key alone) := by
    unfold StreamSchema.key
    split
    · exact .ok _
    · exact .ite (.ok _) (.error not_false)
  refine hkey.bind fun key => ?_
  exact .ite (.bind (.error not_false) fun _ => .pure _) (.pure _)

lemma direct_addEvent (alone : Bool) (streams : Dictionary ℕ StreamSchema) (event : EventSchema) :
    Direct (addEvent alone streams event) := by
  have hkey : Direct (event.streamKey alone streams) := by
    unfold EventSchema.streamKey
    split
    · exact .ok _
    · split
      · exact .ok _
      · exact .error not_false
  have hadd (key : ℕ) (stream : StreamSchema) : Direct (stream.addEvent key event) := by
    have hlast (bound : StreamSchema) : Direct
        (if bound.anonymousEvent.isSome ∧ 1 < bound.eventCount then
          invalid (.eventIdMissing event.name key) >>= fun _ : Unit => pure bound
        else pure bound) :=
      .ite (.bind (.error not_false) fun _ => .pure _) (.pure _)
    unfold StreamSchema.addEvent
    split
    · exact .ite (.bind (.error not_false) fun _ => hlast _) (hlast _)
    · exact .ite (.bind (.error not_false) fun _ => hlast _) (hlast _)
  refine hkey.bind fun key => ?_
  split
  · exact .error not_false
  · exact (hadd key _).bind fun _ => .pure _

lemma direct_bindEvents (streams : List StreamSchema) (events : List EventSchema) :
    Direct (bindEvents streams events) :=
  .bind (.foldlM _ _ (direct_addStream _)) fun _ => .foldlM _ _ (direct_addEvent _)

/-! ## The byte order and the references to clocks -/

lemma ByteOrder.direct_ofTraceKeyword (keyword : String) : Direct (ofTraceKeyword keyword) := by
  unfold ofTraceKeyword
  split <;> first | exact .ok _ | exact .error not_false

lemma direct_firstByteOrder? (nodes : List Node) : Direct (firstByteOrder? nodes) := by
  induction nodes with
  | nil => exact .ok _
  | cons node rest ih =>
    refine (Assignment.direct_ofNode node).bind fun a => .ite (a.direct_string.bind fun keyword => ?_) ih
    exact (ByteOrder.direct_ofTraceKeyword keyword).bind fun _ => .pure _

lemma direct_traceByteOrder? (root : Node) : Direct (traceByteOrder? root) := by
  unfold traceByteOrder?
  split
  · exact direct_firstByteOrder? _
  · exact .ok _

lemma direct_checkClocks (declared : Dictionary String Clock) (references : List String) :
    Direct (checkClocks declared references) := by
  unfold checkClocks
  split
  · exact .error not_false
  · exact .ok _

end CommonTrace
