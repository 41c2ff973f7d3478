import CommonTrace.Proofs.Schema.BlockComparison
import Mathlib.Data.Set.Insert

/-!
# Requests

Building types consists of requests: for the type of a name, and for the type that specifiers describe.  To
answer one leads to others, which have to be answered first.  What a request does by itself is told when the
answers to the others are given (`Request.steps`); so the builders are procedures that take answers.

A procedure *makes* a request in a table if it would stop if the answer to that were an error, whatever the
error (`Calls`).  This says what a run does at its inner points without another description of the run beside
the procedure itself.

Such a procedure does one thing after the other, and knows of its requests only what is answered.  All builders
are put together in a few ways that keep this (`Inquiry`), so for each of them and each table there is a
dialogue that tells in which order it makes its requests (`Inquiry.exists_dialogue`).  What it makes are then
the requests of that dialogue (`Dialogue.calls_iff_mem`).
-/

namespace CommonTrace

open Tsdl TypeM

/-! ## Requests and answers -/

/-- What building types asks for. -/
inductive Request where
  /-- The type of a name, as it is known in a scope. -/
  | named (scope : TypeScopeId) (name : String)
  /-- The type that specifiers describe in a scope. -/
  | part (scope : TypeScopeId) (specifiers : Node)

/-- A way to answer requests. -/
abbrev Answers := Request → TypeM FieldType

namespace Answers

/-- The answers to requests for names. -/
abbrev names (answers : Answers) : TypeScopeId → String → TypeM FieldType :=
  fun scope name => answers (.named scope name)

/-- The answers to requests for what specifiers describe. -/
abbrev parts (answers : Answers) : TypeScopeId → Node → TypeM FieldType :=
  fun scope specifiers => answers (.part scope specifiers)

end Answers

/-- What is done about a request, when the requests that it leads to are answered. -/
def Request.steps (request : Request) (answers : Answers) : TypeM FieldType :=
  match request with
  | .named scope name => resolveNamed answers.parts scope name
  | .part scope specifiers => interpret answers.names answers.parts scope specifiers

/-- How requests are answered within a number of nested steps. -/
def Answers.within (depth : ℕ) : Answers
  | .named scope name => resolveNamed (buildSpecifiers depth) scope name
  | .part scope specifiers => buildSpecifiers depth scope specifiers

/-- A request, and the table from which it is answered. -/
structure Frame where
  /-- The request. -/
  request : Request
  /-- The table. -/
  table : TypeTable

open Classical in
/-- The same answers, but for some requests that are answered with an error. -/
noncomputable def Answers.stopping (answers : Answers) (stops : Set Frame) (error : SchemaError) : Answers :=
  fun request table => if ⟨request, table⟩ ∈ stops then .error error else answers request table

/-- **A procedure makes a request**: whatever the error, if the answer were an error, the procedure would stop
with it. -/
def Calls {α : Type} (procedure : Answers → TypeM α) (answers : Answers) (start : TypeTable)
    (frame : Frame) : Prop :=
  ∀ error, procedure (answers.stopping {frame} error) start = .error error

namespace Answers

variable (answers : Answers) {stops : Set Frame} {frame : Frame} (error : SchemaError)

lemma stopping_of_mem (h : frame ∈ stops) :
    answers.stopping stops error frame.request frame.table = .error error :=
  if_pos h

lemma stopping_of_not_mem (h : frame ∉ stops) :
    answers.stopping stops error frame.request frame.table = answers frame.request frame.table :=
  if_neg h

lemma stopping_empty : answers.stopping ∅ error = answers := by
  funext request table
  exact if_neg (Set.notMem_empty _)

end Answers

/-- Nothing is requested if it all comes to the same. -/
lemma not_calls_of_const {α : Type} {procedure : Answers → TypeM α} {answers : Answers} {start : TypeTable}
    {frame : Frame} {outcome : Except SchemaError (α × TypeTable)}
    (h : ∀ error, procedure (answers.stopping {frame} error) start = outcome) :
    ¬Calls procedure answers start frame := by
  intro hcalls
  have hfirst := (hcalls .chainTooLong).symm.trans (h .chainTooLong)
  have hsecond := (hcalls (.unknownType "")).symm.trans (h (.unknownType ""))
  cases hfirst.trans hsecond.symm

/-! ## Dialogues -/

/-- What a procedure does from a table: it comes to an end, or it makes a request in some table and goes on
with the answer and the table that come of that. -/
inductive Dialogue (α : Type) where
  | done (outcome : Except SchemaError (α × TypeTable))
  | ask (frame : Frame) (next : FieldType → TypeTable → Dialogue α)

namespace Dialogue

variable {α β : Type} (answers : Answers)

/-- What comes of a dialogue when the requests are answered. -/
def run : Dialogue α → Except SchemaError (α × TypeTable)
  | .done outcome => outcome
  | .ask frame next => answers frame.request frame.table >>= fun r => (next r.1 r.2).run

/-- The requests that are made, in their order. -/
def frames : Dialogue α → List Frame
  | .done _ => []
  | .ask frame next =>
    frame :: match answers frame.request frame.table with
      | .ok r => (next r.1 r.2).frames
      | .error _ => []

/-- One dialogue and then another. -/
def andThen (next : α → TypeTable → Dialogue β) : Dialogue α → Dialogue β
  | .done (.ok r) => next r.1 r.2
  | .done (.error e) => .done (.error e)
  | .ask frame rest => .ask frame fun t table => (rest t table).andThen next

lemma run_andThen (next : α → TypeTable → Dialogue β) (dialogue : Dialogue α) :
    (dialogue.andThen next).run answers =
      dialogue.run answers >>= fun r => (next r.1 r.2).run answers := by
  induction dialogue with
  | done outcome => cases outcome <;> rfl
  | ask frame rest ih =>
    simp only [andThen, run, bind_assoc]
    exact bind_congr fun r => ih r.1 r.2

lemma mem_frames_ask {frame frame' : Frame} {next : FieldType → TypeTable → Dialogue α} :
    frame' ∈ (ask frame next).frames answers ↔ frame' = frame ∨
      ∃ r, answers frame.request frame.table = .ok r ∧ frame' ∈ (next r.1 r.2).frames answers := by
  rw [frames, List.mem_cons]
  cases answers frame.request frame.table <;> simp

/-- If none of the requests is stopped, all goes as it would have gone. -/
lemma run_stopping_of_forall {stops : Set Frame} (error : SchemaError) {dialogue : Dialogue α}
    (h : ∀ frame ∈ dialogue.frames answers, frame ∉ stops) :
    dialogue.run (answers.stopping stops error) = dialogue.run answers := by
  induction dialogue with
  | done outcome => rfl
  | ask frame next ih =>
    have hfirst := h frame ((mem_frames_ask answers).mpr (.inl rfl))
    rw [run, run, answers.stopping_of_not_mem error hfirst]
    cases hanswer : answers frame.request frame.table with
    | error e => rfl
    | ok r =>
      exact ih r.1 r.2 fun frame' hmem =>
        h frame' ((mem_frames_ask answers).mpr (.inr ⟨r, hanswer, hmem⟩))

/-- If one of the requests is stopped, the dialogue stops. -/
lemma run_stopping_of_exists {stops : Set Frame} (error : SchemaError) {dialogue : Dialogue α}
    (h : ∃ frame ∈ dialogue.frames answers, frame ∈ stops) :
    dialogue.run (answers.stopping stops error) = .error error := by
  induction dialogue with
  | done outcome =>
    obtain ⟨_, hmem, -⟩ := h
    cases hmem
  | ask frame next ih =>
    by_cases hfirst : frame ∈ stops
    · rw [run, answers.stopping_of_mem error hfirst]
      rfl
    rw [run, answers.stopping_of_not_mem error hfirst]
    obtain ⟨frame', hmem, hstop⟩ := h
    rcases (mem_frames_ask answers).mp hmem with rfl | ⟨r, hanswer, hmem⟩
    · exact absurd hstop hfirst
    · rw [hanswer]
      exact ih r.1 r.2 ⟨frame', hmem, hstop⟩

/-- **A procedure makes the requests of its dialogue.** -/
theorem calls_iff_mem {procedure : Answers → TypeM α} {start : TypeTable} {dialogue : Dialogue α}
    (h : ∀ answers, procedure answers start = dialogue.run answers) {frame : Frame} :
    Calls procedure answers start frame ↔ frame ∈ dialogue.frames answers := by
  constructor
  · intro hcalls
    by_contra hmem
    have hsame (error : SchemaError) :
        procedure (answers.stopping {frame} error) start = dialogue.run answers := by
      rw [h]
      refine run_stopping_of_forall answers error fun frame' hframe' => ?_
      rintro rfl
      exact hmem hframe'
    exact not_calls_of_const hsame hcalls
  · intro hmem error
    rw [h]
    exact run_stopping_of_exists answers error ⟨frame, hmem, rfl⟩

end Dialogue

/-! ## Procedures that make requests -/

/-- **A procedure that is put together from requests and from steps that do without.**  Besides steps that have
nothing to do with names it may make a type known, and it may open a body; then all names of the body are
resolved at the end. -/
inductive Inquiry : {α : Type} → (Answers → TypeM α) → Prop
  | nameless {α : Type} {step : TypeM α} (h : step.Nameless) : Inquiry fun _ => step
  | known (scope : TypeScopeId) (name : String) (t : FieldType) : Inquiry fun _ => enterBuilt scope name t
  | ask (request : Request) : Inquiry fun answers => answers request
  | bind {α β : Type} {step : Answers → TypeM α} {next : α → Answers → TypeM β} (h : Inquiry step)
      (hnext : ∀ a, Inquiry (next a)) : Inquiry fun answers => step answers >>= fun a => next a answers
  | inside {α : Type} (outer : TypeScopeId) (body : Node) {step : TypeScopeId → Answers → TypeM α}
      (h : ∀ scope, Inquiry (step scope)) :
      Inquiry fun answers => Comparison.openBody outer body >>= fun scope =>
        step scope answers >>= fun a => resolveAll answers.names scope >>= fun _ => pure a

namespace Inquiry

variable {α β : Type}

lemma pure (a : α) : Inquiry fun _ => (Pure.pure a : TypeM α) :=
  nameless (.pure a)

lemma malformed (fault : Malformed) : Inquiry fun _ => (TypeM.malformed fault : TypeM α) :=
  nameless (.malformed fault)

lemma invalid (fault : Invalid) : Inquiry fun _ => (TypeM.invalid fault : TypeM α) :=
  nameless (.invalid fault)

/-- A step that stops everything, whatever would be done after it. -/
lemma throw_bind {e : SchemaError} (h : e.IsLocal) {next : α → Answers → TypeM β} :
    Inquiry fun answers => (MonadExcept.throw e : TypeM α) >>= fun a => next a answers := by
  have hstop (answers : Answers) : ((MonadExcept.throw e : TypeM α) >>= fun a => next a answers) =
      MonadExcept.throw e := rfl
  simp only [hstop]
  exact nameless (.throw h)

lemma ite {c : Prop} [Decidable c] {step step' : Answers → TypeM α} (h : Inquiry step)
    (h' : Inquiry step') : Inquiry fun answers => if c then step answers else step' answers := by
  by_cases hc : c
  · simpa only [if_pos hc] using h
  · simpa only [if_neg hc] using h'

lemma foldlM {ι : Type} {step : Answers → α → ι → TypeM α} (items : List ι) (start : α)
    (h : ∀ a item, Inquiry fun answers => step answers a item) :
    Inquiry fun answers => items.foldlM (step answers) start := by
  induction items generalizing start with
  | nil => exact pure start
  | cons item rest ih =>
    simp only [List.foldlM_cons]
    exact (h start item).bind ih

/-! ### Dialogues of procedures -/

/-- There is a dialogue for every table. -/
def HasDialogues (procedure : Answers → TypeM α) : Prop :=
  ∀ start, ∃ dialogue : Dialogue α, ∀ answers, procedure answers start = dialogue.run answers

namespace HasDialogues

lemma const (step : TypeM α) : HasDialogues fun _ => step :=
  fun start => ⟨.done (step start), fun _ => rfl⟩

lemma ask (request : Request) : HasDialogues fun answers => answers request := by
  intro start
  refine ⟨.ask ⟨request, start⟩ fun t table => .done (.ok (t, table)), fun answers => ?_⟩
  rw [Dialogue.run]
  exact (bind_pure (answers request start)).symm

lemma bind {step : Answers → TypeM α} {next : α → Answers → TypeM β} (h : HasDialogues step)
    (hnext : ∀ a, HasDialogues (next a)) :
    HasDialogues fun answers => step answers >>= fun a => next a answers := by
  intro start
  choose rest hrest using hnext
  obtain ⟨dialogue, hdialogue⟩ := h start
  refine ⟨dialogue.andThen rest, fun answers => ?_⟩
  change (step answers start >>= fun r => next r.1 answers r.2) = _
  rw [Dialogue.run_andThen, hdialogue]
  exact bind_congr fun r => hrest r.1 r.2 answers

lemma get_bind {next : TypeTable → Answers → TypeM α} (h : ∀ table, HasDialogues (next table)) :
    HasDialogues fun answers => get >>= fun table => next table answers :=
  fun start => h start start

lemma forM {ι : Type} {step : ι → Answers → TypeM Unit} (items : List ι)
    (h : ∀ item, HasDialogues (step item)) :
    HasDialogues fun answers => items.forM fun item => step item answers := by
  induction items with
  | nil => exact const (Pure.pure ())
  | cons item rest ih => exact bind (h item) fun _ => ih

lemma resolveAll (scope : TypeScopeId) : HasDialogues fun answers => resolveAll answers.names scope :=
  get_bind fun _ => forM _ fun name => bind (ask (.named scope name)) fun _ => const (Pure.pure ())

end HasDialogues

/-- **What a procedure requests, it requests in order.** -/
theorem exists_dialogue {procedure : Answers → TypeM α} (h : Inquiry procedure) : HasDialogues procedure := by
  induction h with
  | nameless _ => exact .const _
  | known _ _ _ => exact .const _
  | ask request => exact .ask request
  | bind _ _ ih ihnext => exact ih.bind ihnext
  | inside outer body _ ih =>
    refine .bind (.const _) fun scope => .bind (ih scope) fun a => ?_
    exact .bind (.resolveAll scope) fun _ => .const (Pure.pure a)

end Inquiry

/-! ## Building types -/

namespace TypeM

lemma nameless_describe (node : Node) (word : String) (nameKind bodyKind : NodeKind) (fault : Malformed) :
    (describe node word nameKind bodyKind fault).Nameless := by
  unfold describe
  dsimp only
  split
  · exact .pure _
  · exact .pure _
  · exact .malformed _

lemma inquiry_buildType (scope : TypeScopeId) (specifiers : Node) (declarator : Option Node) :
    Inquiry fun answers => buildType answers.parts scope specifiers declarator := by
  refine .bind (.ask (.part scope specifiers)) fun t => ?_
  cases declarator with
  | none => exact .pure t
  | some declarator => exact .nameless (nameless_applyDeclarator t declarator)

lemma inquiry_addMember (scope : TypeScopeId) (owner : String) (specifiers : Node)
    (before : List (String × FieldType)) (declarator : Node) :
    Inquiry fun answers => addMember answers.parts scope owner specifiers before declarator := by
  refine .bind (.nameless (nameless_declaratorName declarator)) fun name => ?_
  refine .ite (.throw_bind (e := .repeated _) trivial) ?_
  refine .bind (inquiry_buildType scope specifiers (some declarator)) fun t => ?_
  exact .bind (.nameless (nameless_checkTagged name t)) fun _ => .pure _

lemma inquiry_addMembers (scope : TypeScopeId) (owner : String) (before : List (String × FieldType))
    (declaration : Node) :
    Inquiry fun answers => addMembers answers.parts scope owner before declaration := by
  refine .bind (.nameless (nameless_require _ _ _)) fun specifiers => ?_
  refine .bind (.nameless (nameless_require _ _ _)) fun declarators => ?_
  exact .foldlM _ _ fun before declarator => inquiry_addMember scope owner specifiers before declarator

lemma inquiry_buildMembers (outer : TypeScopeId) (owner : String) (body : Node) :
    Inquiry fun answers => buildMembers answers.names answers.parts outer owner body := by
  have hopen (answers : Answers) : buildMembers answers.names answers.parts outer owner body =
      Comparison.openBody outer body >>= fun scope =>
        (body.childrenOf .fieldDeclaration).foldlM (addMembers answers.parts scope owner) [] >>= fun members =>
          resolveAll answers.names scope >>= fun _ => pure members := by
    simp only [buildMembers, Comparison.openBody, bind_assoc, pure_bind]
  simp only [hopen]
  exact .inside outer body fun scope => .foldlM _ _ fun before declaration =>
    inquiry_addMembers scope owner before declaration

lemma inquiry_makeKnown (scope : TypeScopeId) (name : Option String) (t : FieldType) :
    Inquiry fun _ => makeKnown scope name t := by
  cases name with
  | none => exact .pure ()
  | some name => exact .known scope name t

lemma inquiry_containerType (scope : TypeScopeId) (node : Node) :
    Inquiry fun answers => containerType answers.names answers.parts scope node := by
  unfold containerType
  cases node.child? .enumContainerType with
  | none =>
    refine .bind (.ask (.named scope "int")) fun t => ?_
    cases t with
    | integer t => exact .pure t
    | _ => exact .invalid _
  | some container =>
    refine .bind (.nameless (nameless_require _ _ _)) fun specifiers => ?_
    refine .bind (.ask (.part scope specifiers)) fun t => ?_
    cases t with
    | integer t => exact .pure t
    | _ => exact .invalid _

lemma inquiry_buildEnum (scope : TypeScopeId) (node : Node) :
    Inquiry fun answers => buildEnum answers.names answers.parts scope node := by
  refine .bind (.nameless (nameless_describe _ _ _ _ _)) fun description => ?_
  cases description with
  | reference name => exact .ask (.named scope name)
  | definition name body =>
    refine .bind (inquiry_containerType scope node) fun container => ?_
    refine .bind (.nameless (.foldlM _ _ (nameless_addEnumerator container))) fun ranges => ?_
    exact .bind (inquiry_makeKnown scope name _) fun _ => .pure _

lemma inquiry_buildStruct (scope : TypeScopeId) (node : Node) :
    Inquiry fun answers => buildStruct answers.names answers.parts scope node := by
  refine .bind (.nameless (nameless_describe _ _ _ _ _)) fun description => ?_
  cases description with
  | reference name => exact .ask (.named scope name)
  | definition name body =>
    refine .bind (.nameless (nameless_declaredAlignment node)) fun alignment => ?_
    refine .bind (inquiry_buildMembers scope "struct" body) fun fields => ?_
    exact .bind (inquiry_makeKnown scope name _) fun _ => .pure _

lemma inquiry_buildVariant (scope : TypeScopeId) (node : Node) :
    Inquiry fun answers => buildVariant answers.names answers.parts scope node := by
  refine .bind (.nameless (nameless_declaredTag node)) fun tag => ?_
  refine .bind (.nameless (nameless_describe _ _ _ _ _)) fun description => ?_
  cases description with
  | reference name => exact .bind (.ask (.named scope name)) fun _ => .pure _
  | definition name body =>
    refine .bind (inquiry_buildMembers scope "variant" body) fun alternatives => ?_
    refine .ite (.throw_bind (e := .invalid .variantEmpty) trivial) ?_
    exact .bind (inquiry_makeKnown scope name _) fun _ => .pure _

/-- **What specifiers describe is built by requests.** -/
theorem inquiry_interpret (scope : TypeScopeId) (specifiers : Node) :
    Inquiry fun answers => interpret answers.names answers.parts scope specifiers := by
  unfold interpret
  cases specifiers.children with
  | nil => exact .malformed _
  | cons first rest =>
    dsimp only
    cases first.kind with
    | integer => exact .bind (.nameless (nameless_integerType first)) fun _ => .pure _
    | floatingPoint => exact .bind (.nameless (nameless_floatType first)) fun _ => .pure _
    | string => exact .bind (.nameless (nameless_stringType first)) fun _ => .pure _
    | enum => exact inquiry_buildEnum scope first
    | struct => exact inquiry_buildStruct scope first
    | variant => exact inquiry_buildVariant scope first
    | typeName =>
      exact .bind (.nameless (nameless_wordsName specifiers)) fun name => .ask (.named scope name)
    | _ => exact .malformed _

end TypeM

/-! ## Reading blocks -/

/-- A procedure that reads a part of a block, whatever has been passed over before it. -/
def InquiryBlock {α : Type} (procedure : Answers → BlockM α) : Prop :=
  ∀ passed, Inquiry fun answers => procedure answers passed

namespace InquiryBlock

variable {α β : Type}

lemma pure (a : α) : InquiryBlock fun _ => (Pure.pure a : BlockM α) :=
  fun passed => .pure (a, passed)

lemma throw {e : SchemaError} (h : e.IsLocal) :
    InquiryBlock fun _ => (MonadExcept.throw e : BlockM α) := by
  intro passed
  have hstop : (MonadExcept.throw e : BlockM α) passed = (MonadExcept.throw e : TypeM (α × List Warning)) :=
    rfl
  simp only [hstop]
  exact .nameless (.throw h)

lemma bind {step : Answers → BlockM α} {next : α → Answers → BlockM β} (h : InquiryBlock step)
    (hnext : ∀ a, InquiryBlock (next a)) :
    InquiryBlock fun answers => step answers >>= fun a => next a answers :=
  fun passed => (h passed).bind fun r => hnext r.1 r.2

lemma throw_bind {e : SchemaError} (h : e.IsLocal) {next : α → Answers → BlockM β} :
    InquiryBlock fun answers => (MonadExcept.throw e : BlockM α) >>= fun a => next a answers := by
  have hstop (answers : Answers) : ((MonadExcept.throw e : BlockM α) >>= fun a => next a answers) =
      MonadExcept.throw e := rfl
  simp only [hstop]
  exact throw h

lemma lift {step : Answers → TypeM α} (h : Inquiry step) :
    InquiryBlock fun answers => (liftM (step answers) : BlockM α) :=
  fun passed => h.bind fun a => .pure (a, passed)

/-- A step that does not look at the table, and what is done with its result. -/
lemma of_bind {x : Except SchemaError α} (hx : Local x) {next : α → Answers → BlockM β}
    (h : ∀ a, InquiryBlock (next a)) :
    InquiryBlock fun answers => (liftM x : BlockM α) >>= fun a => next a answers :=
  .bind (.lift (.nameless (.lift hx))) h

lemma warn (warning : Warning) : InquiryBlock fun _ => BlockM.warn warning :=
  fun passed => .pure ((), passed ++ [warning])

lemma warn_bind (warning : Warning) (a : α) :
    InquiryBlock fun _ => BlockM.warn warning >>= fun _ => Pure.pure a :=
  .bind (.warn warning) fun _ => .pure a

lemma ite {c : Prop} [Decidable c] {step step' : Answers → BlockM α} (h : InquiryBlock step)
    (h' : InquiryBlock step') : InquiryBlock fun answers => if c then step answers else step' answers := by
  by_cases hc : c
  · simpa only [if_pos hc] using h
  · simpa only [if_neg hc] using h'

lemma foldlM {ι : Type} {step : Answers → α → ι → BlockM α} (items : List ι) (start : α)
    (h : ∀ a item, InquiryBlock fun answers => step answers a item) :
    InquiryBlock fun answers => items.foldlM (step answers) start := by
  induction items generalizing start with
  | nil => exact pure start
  | cons item rest ih =>
    simp only [List.foldlM_cons]
    exact (h start item).bind ih

end InquiryBlock

namespace BlockM

variable {α β : Type}

lemma bind_apply (step : BlockM α) (next : α → BlockM β) (passed : List Warning) :
    (step >>= next) passed = step passed >>= fun r => next r.1 r.2 :=
  rfl

/-- A step in building types does not look at what has been passed over. -/
lemma lift_bind_apply (step : TypeM α) (next : α → BlockM β) (passed : List Warning) :
    ((liftM step : BlockM α) >>= next) passed = step >>= fun a => next a passed := by
  funext table
  change ((step table >>= _) >>= _) = step table >>= _
  cases step table <;> rfl

lemma inquiry_layoutOf (scope : TypeScopeId) (a : Assignment) :
    Inquiry fun answers => layoutOf answers.parts scope a := by
  refine .bind (.nameless (.lift a.direct_type.isLocal)) fun specifiers => ?_
  exact .bind (inquiry_buildType scope specifiers a.declarator?) fun t => .ite (.pure t) (.invalid _)

lemma inquiry_readScoped (block : Node) (start : α)
    {assign : Answers → TypeScopeId → α → NodeKind → Assignment → BlockM α}
    (hassign : ∀ scope draft kind a, InquiryBlock fun answers => assign answers scope draft kind a) :
    InquiryBlock fun answers => readScoped answers.names block start (assign answers) := by
  intro passed
  have hread (answers : Answers) : readScoped answers.names block start (assign answers) passed =
      Comparison.openBody TypeTable.rootScope block >>= fun scope =>
        (assignmentNodes block).foldlM (m := BlockM) (fun draft node => do
          assign answers scope draft node.kind (← Assignment.ofNode node)) start passed >>= fun r =>
            resolveAll answers.names scope >>= fun _ => pure r := by
    have hopen : readScoped answers.names block start (assign answers) =
        (liftM (Comparison.openBody TypeTable.rootScope block) : BlockM TypeScopeId) >>= fun scope => do
          let result ← (assignmentNodes block).foldlM
            (fun draft node => do assign answers scope draft node.kind (← Assignment.ofNode node)) start
          TypeM.resolveAll answers.names scope
          return result := by
      simp only [readScoped, Comparison.openBody, liftM_bind, liftM_pure, bind_assoc, pure_bind]
    rw [hopen, lift_bind_apply]
    refine bind_congr fun scope => ?_
    rw [bind_apply]
    exact bind_congr fun r => lift_bind_apply _ _ _
  simp only [hread]
  refine .inside _ block fun scope => ?_
  exact InquiryBlock.foldlM _ _ (fun draft node =>
    .of_bind (Assignment.direct_ofNode node).isLocal fun a => hassign scope draft node.kind a) passed

lemma inquiry_assignTrace (scope : TypeScopeId) (trace : TraceBlock) (kind : NodeKind) (a : Assignment) :
    InquiryBlock fun answers => assignTrace answers.parts scope trace kind a := by
  unfold assignTrace
  split
  · exact .of_bind a.direct_unsigned.isLocal fun _ => .pure _
  · exact .of_bind a.direct_unsigned.isLocal fun _ => .pure _
  · exact .of_bind (direct_uuidOf a).isLocal fun _ => .pure _
  · exact .pure _
  · exact .bind (.lift (inquiry_layoutOf scope a)) fun _ => .pure _
  · exact .warn_bind _ _

lemma inquiry_readTrace (block : Node) :
    InquiryBlock fun answers => readTrace answers.names answers.parts block := by
  refine .bind (inquiry_readScoped block _ inquiry_assignTrace) fun trace => ?_
  refine .bind (?_ : InquiryBlock fun _ => checkMajor trace) fun _ => .pure trace
  unfold checkMajor
  split
  · exact .ite (.pure ()) (.warn _)
  · exact .pure ()

lemma inquiry_assignStream (scope : TypeScopeId) (stream : StreamSchema) (kind : NodeKind)
    (a : Assignment) : InquiryBlock fun answers => assignStream answers.parts scope stream kind a := by
  unfold assignStream
  split
  · exact .of_bind a.direct_unsigned.isLocal fun _ => .pure _
  · exact .bind (.lift (inquiry_layoutOf scope a)) fun _ => .pure _
  · exact .bind (.lift (inquiry_layoutOf scope a)) fun _ => .pure _
  · exact .bind (.lift (inquiry_layoutOf scope a)) fun _ => .pure _
  · exact .warn_bind _ _

lemma inquiry_assignEvent (scope : TypeScopeId) (event : EventSchema) (kind : NodeKind)
    (a : Assignment) : InquiryBlock fun answers => assignEvent answers.parts scope event kind a := by
  unfold assignEvent
  split
  · exact .of_bind a.direct_string.isLocal fun _ => .pure _
  · exact .of_bind a.direct_unsigned.isLocal fun _ => .pure _
  · exact .of_bind a.direct_unsigned.isLocal fun _ => .pure _
  · exact .of_bind a.direct_signed.isLocal fun _ => .pure _
  · exact .of_bind a.direct_string.isLocal fun _ => .pure _
  · exact .bind (.lift (inquiry_layoutOf scope a)) fun _ => .pure _
  · exact .bind (.lift (inquiry_layoutOf scope a)) fun _ => .pure _
  · exact .warn_bind _ _

lemma inquiry_readEvent (block : Node) :
    InquiryBlock fun answers => readEvent answers.names answers.parts block := by
  refine .bind (inquiry_readScoped block _ inquiry_assignEvent) fun event => ?_
  exact .ite (.throw_bind (e := .invalid .eventNameMissing) trivial) (.pure event)

lemma inquiry_assignClock (draft : ClockDraft) (a : Assignment) :
    InquiryBlock fun _ => assignClock draft a := by
  unfold assignClock
  split
  · exact .of_bind a.direct_string.isLocal fun _ => .pure _
  · exact .of_bind (direct_uuidOf a).isLocal fun _ => .pure _
  · exact .of_bind a.direct_string.isLocal fun _ => .pure _
  · exact .of_bind a.direct_unsigned.isLocal fun _ =>
      .ite (.throw_bind (e := .invalid .clockFrequencyZero) trivial) (.pure _)
  · exact .of_bind a.direct_signed.isLocal fun _ => .pure _
  · exact .of_bind a.direct_signed.isLocal fun _ => .pure _
  · exact .of_bind a.direct_unsigned.isLocal fun _ => .pure _
  · exact .of_bind a.direct_boolean.isLocal fun _ => .pure _
  · exact .warn_bind _ _

lemma inquiry_readClock (block : Node) : InquiryBlock fun _ => readClock block := by
  refine .bind (.foldlM _ _ fun draft node => .of_bind (Assignment.direct_ofNode node).isLocal fun a =>
    inquiry_assignClock draft a) fun draft => ?_
  split
  · exact .pure _
  · exact .throw (e := .invalid .clockNameMissing) trivial

lemma inquiry_readEnv (env : Dictionary String EnvValue) (block : Node) :
    InquiryBlock fun _ => readEnv env block := by
  refine .foldlM _ _ fun env node => .of_bind (Assignment.direct_ofNode node).isLocal fun a => ?_
  exact .of_bind (direct_envValueOf a).isLocal fun _ => .pure _

/-- What a node under the root declares is read by requests. -/
lemma inquiry_readNode (blocks : Blocks) (node : Node) :
    InquiryBlock fun answers => readNode answers.names answers.parts blocks node := by
  unfold readNode
  split
  · exact .ite (.throw_bind (e := .repeated .traceBlock) trivial)
      (.bind (inquiry_readTrace node) fun _ => .pure _)
  · exact .bind (inquiry_readScoped node _ inquiry_assignStream) fun _ => .pure _
  · exact .bind (inquiry_readEvent node) fun _ => .pure _
  · exact .bind (inquiry_readClock node) fun clock =>
      .ite (.throw_bind (e := .repeated (.clock clock.name)) trivial) (.pure _)
  · exact .bind (inquiry_readEnv _ node) fun _ => .pure _
  · exact .warn_bind _ _
  · exact .pure _
  · exact .pure _
  · exact .pure _
  · exact .throw (e := .malformed (.unexpectedTopLevel _)) trivial

/-- What stands under the root is read by requests. -/
lemma inquiry_readNodes (nodes : List Node) (blocks : Blocks) :
    InquiryBlock fun answers => nodes.foldlM (readNode answers.names answers.parts) blocks :=
  .foldlM _ _ inquiry_readNode

lemma readEntered_apply (resolve : TypeScopeId → String → TypeM FieldType)
    (build : TypeScopeId → Node → TypeM FieldType) (root : Node) (passed : List Warning) :
    readEntered resolve build root passed =
      root.children.foldlM (readNode resolve build) .empty passed >>= fun read =>
        resolveAll resolve TypeTable.rootScope >>= fun _ => pure read := by
  rw [readEntered, bind_apply]
  exact bind_congr fun read => lift_bind_apply _ _ _

/-- What is read once the names under the root have been entered is requested in order. -/
theorem dialogues_readEntered (root : Node) (passed : List Warning) :
    Inquiry.HasDialogues fun answers => readEntered answers.names answers.parts root passed := by
  simp only [readEntered_apply]
  refine .bind (inquiry_readNodes root.children .empty passed).exists_dialogue fun read => ?_
  exact .bind (.resolveAll TypeTable.rootScope) fun _ => .const (pure read)

end BlockM

end CommonTrace
