import CommonTrace.Proofs.Schema.TypeExpression
import CommonTrace.Schema.Block

/-!
# Blocks are laid out

Every layout that a block of the metadata gives is a structure, and a well-formed type
(`FieldType.IsLayout`).  `BlockM.readAll_ensures` collects this for all blocks of the metadata, and it
says that each stream and each event of the tree is among them.
-/

namespace CommonTrace

open Tsdl

/-- **What the blocks of some nodes are like**: the layouts in them are layouts, and each stream and
each event among the nodes has its block. -/
structure Blocks.Sound (nodes : List Node) (clocks : Set String) (blocks : Blocks) : Prop where
  trace : ∀ trace ∈ blocks.trace, BlockLaidOut clocks trace.packetHeader
  streams : ∀ stream ∈ blocks.streams, stream.LaidOut clocks
  events : ∀ event ∈ blocks.events, event.LaidOut clocks
  streamCount : blocks.streams.length = nodes.countP (·.kind = .stream)
  eventCount : blocks.events.length = nodes.countP (·.kind = .event)

lemma Blocks.Sound.mono {nodes : List Node} {clocks more : Set String} {blocks : Blocks}
    (h : blocks.Sound nodes clocks) (hmore : clocks ⊆ more) : blocks.Sound nodes more where
  trace trace ht := (h.trace trace ht).mono hmore
  streams stream hs := (h.streams stream hs).mono hmore
  events event he := (h.events event he).mono hmore
  streamCount := h.streamCount
  eventCount := h.eventCount

namespace BlockM

/-! ## Steps -/

section Steps

variable {α β : Type} {noted : Set String} {P : Set String → α → Prop} {Q : Set String → β → Prop}

/-- The step keeps tables well formed, and its result has `P`. -/
def Ensures (noted : Set String) (P : Set String → α → Prop) (step : BlockM α) : Prop :=
  ∀ warnings, TypeM.Ensures noted TypeTable.WellFormed (fun later result => P later result.1)
    (step warnings)

namespace Ensures

lemma pure {a : α} (ha : ∀ later, noted ⊆ later → P later a) :
    (Pure.pure a : BlockM α).Ensures noted P :=
  fun _ => .pure ha

lemma throw {error : SchemaError} : (MonadExcept.throw error : BlockM α).Ensures noted P := by
  intro warnings table a table' _ _ hok
  cases hok

lemma bind {step : BlockM α} {next : α → BlockM β} (hstep : step.Ensures noted P)
    (hnext : ∀ later a, noted ⊆ later → P later a → (next a).Ensures later Q) :
    (step >>= next).Ensures noted Q :=
  fun warnings => .bind (hstep warnings) fun later result hlater h =>
    hnext later result.1 hlater h result.2

lemma throw_bind {error : SchemaError} {next : α → BlockM β} :
    ((MonadExcept.throw error : BlockM α) >>= next).Ensures noted Q :=
  bind (P := fun _ _ => False) throw fun _ _ _ h => h.elim

/-- A step that builds types, and what is done with its result. -/
lemma lift_bind {step : TypeM α} {next : α → BlockM β}
    (hstep : step.Ensures noted TypeTable.WellFormed P)
    (hnext : ∀ later a, noted ⊆ later → P later a → (next a).Ensures later Q) :
    ((liftM step : BlockM α) >>= next).Ensures noted Q := by
  intro warnings table b table' hnoted htable hok
  obtain ⟨⟨⟨a, _⟩, middle⟩, hlift, hrest⟩ := exists_of_bind_eq_ok hok
  obtain ⟨⟨a, _⟩, hfirst, hlift⟩ := exists_of_bind_eq_ok hlift
  cases hlift
  obtain ⟨hgrown, hmiddle, ha⟩ := hstep table a middle hnoted htable hfirst
  obtain ⟨hgrown', htable', hb⟩ :=
    hnext _ a (hnoted.trans hgrown) ha warnings middle b table' subset_rfl hmiddle hrest
  exact ⟨hgrown.trans hgrown', htable', hb⟩

/-- A step without access to the table, and what is done with its result. -/
lemma of_bind {x : Except SchemaError α} {next : α → BlockM β}
    (hnext : ∀ a, (next a).Ensures noted Q) : ((liftM x : BlockM α) >>= next).Ensures noted Q := by
  intro warnings table b table' hnoted htable hok
  cases x with
  | error _ => cases hok
  | ok a => exact hnext a warnings table b table' hnoted htable hok

/-- A loop keeps what each of its rounds keeps of the items that have been gone through. -/
lemma foldlM {ι : Type} {P : List ι → Set String → α → Prop} {step : α → ι → BlockM α}
    {items : List ι} {start : α} (hstart : ∀ later, noted ⊆ later → P [] later start)
    (hstep : ∀ done later a item, P done later a → (step a item).Ensures later (P (done ++ [item]))) :
    (items.foldlM step start).Ensures noted (P items) := by
  suffices h : ∀ rest done a warnings table result table', P done table.noted a → table.WellFormed →
      List.foldlM step a rest warnings table = .ok (result, table') →
      table.noted ⊆ table'.noted ∧ table'.WellFormed ∧ P (done ++ rest) table'.noted result.1 from
    fun warnings table result table' hnoted htable hok =>
      h items [] start warnings table result table' (hstart _ hnoted) htable hok
  intro rest
  induction rest with
  | nil =>
    intro done a warnings table result table' ha htable hok
    cases hok
    rw [List.append_nil]
    exact ⟨subset_rfl, htable, ha⟩
  | cons item rest ih =>
    intro done a warnings table result table' ha htable hok
    rw [List.foldlM_cons] at hok
    obtain ⟨⟨⟨b, warnings'⟩, middle⟩, hround, hrest⟩ := exists_of_bind_eq_ok hok
    obtain ⟨hgrown, hmiddle, hb⟩ :=
      hstep done _ a item ha warnings table _ middle subset_rfl htable hround
    obtain ⟨hgrown', htable', hresult⟩ := ih _ b warnings' middle result table' hb hmiddle hrest
    rw [List.append_assoc] at hresult
    exact ⟨hgrown.trans hgrown', htable', hresult⟩

end Ensures

lemma warn_ensures (warning : Warning) : (warn warning).Ensures noted fun _ _ => True :=
  fun _ => .pure fun _ _ => trivial

end Steps

variable {noted : Set String} {resolve : TypeScopeId → String → TypeM FieldType}
  {build : TypeScopeId → Node → TypeM FieldType}

/-! ## Parts of blocks -/

lemma layoutOf_ensures (hbuild : TypeM.Builds build) (scope : TypeScopeId) (a : Assignment) :
    (layoutOf build scope a).Ensures noted TypeTable.WellFormed FieldType.IsLayout := by
  refine .lift_bind fun specifiers _ => ?_
  refine .bind (TypeM.buildType_ensures hbuild scope specifiers a.declarator?) fun _ t _ ht => ?_
  split
  · rename_i hstruct
    exact .pure fun _ hlater => ⟨hstruct, ht.mono hlater⟩
  · exact .throw

lemma readScoped_ensures {α : Type} {P : Set String → α → Prop} (hresolve : TypeM.Resolves resolve)
    (block : Node) {start : α} (hmono : ∀ noted later a, noted ⊆ later → P noted a → P later a)
    (hstart : ∀ later, P later start)
    {assign : TypeScopeId → α → NodeKind → Assignment → BlockM α}
    (hassign : ∀ noted scope draft kind a, P noted draft →
      (assign scope draft kind a).Ensures noted P) :
    (readScoped resolve block start assign).Ensures noted P := by
  refine .lift_bind (TypeM.openScope_keeps TypeTable.rootScope) fun _ scope _ _ => ?_
  refine .lift_bind (TypeM.enterAll_keeps scope block.children) fun _ _ _ _ => ?_
  refine .bind (P := P) (.foldlM (P := fun _ => P) (fun later _ => hstart later)
    fun _ later draft node h => ?_) fun _ result _ h => ?_
  · exact .of_bind fun a => hassign later scope draft node.kind a h
  · exact .lift_bind (TypeM.resolveAll_keeps hresolve scope) fun _ _ hlater _ => .pure fun _ hlater' =>
      hmono _ _ result (hlater.trans hlater') h

/-! ## Trace, streams and events -/

lemma readTrace_ensures (hresolve : TypeM.Resolves resolve) (hbuild : TypeM.Builds build)
    (block : Node) :
    (readTrace resolve build block).Ensures noted fun later trace =>
      BlockLaidOut later trace.packetHeader := by
  refine .bind (readScoped_ensures (P := fun later trace => BlockLaidOut later trace.packetHeader)
    hresolve block (fun _ _ _ hlater => (BlockLaidOut.mono · hlater)) (fun _ => blockLaidOut_none)
    fun _ scope trace kind a h => ?_) fun _ trace _ h => ?_
  · unfold assignTrace
    split
    · exact .of_bind fun _ => .pure fun _ hlater => h.mono hlater
    · exact .of_bind fun _ => .pure fun _ hlater => h.mono hlater
    · exact .of_bind fun _ => .pure fun _ hlater => h.mono hlater
    · exact .pure fun _ hlater => h.mono hlater
    · exact .lift_bind (layoutOf_ensures hbuild scope a) fun _ t _ ht => .pure fun _ hlater =>
        (blockLaidOut_some ht).mono hlater
    · exact .bind (warn_ensures _) fun _ _ hlater _ => .pure fun _ hlater' =>
        h.mono (hlater.trans hlater')
  · refine .bind (P := fun _ _ => True) ?_ fun _ _ hlater _ => .pure fun _ hlater' =>
      h.mono (hlater.trans hlater')
    unfold checkMajor
    split
    · split
      · exact .pure fun _ _ => trivial
      · exact warn_ensures _
    · exact .pure fun _ _ => trivial

lemma readStream_ensures (hresolve : TypeM.Resolves resolve) (hbuild : TypeM.Builds build)
    (block : Node) : (readStream resolve build block).Ensures noted StreamSchema.LaidOut := by
  refine readScoped_ensures hresolve block (fun _ _ _ hlater h => h.mono hlater)
    (fun _ => StreamSchema.laidOut_empty) fun noted scope stream kind a h => ?_
  have hlayout := @layoutOf_ensures noted _ hbuild scope a
  unfold assignStream
  split
  · refine .of_bind fun _ => .pure fun _ hlater => ?_
    exact ⟨h.packetContext.mono hlater, h.eventHeader.mono hlater, h.eventContext.mono hlater,
      (h.mono hlater).events⟩
  · refine .lift_bind hlayout fun _ t hlater ht => .pure fun _ hlater' => ?_
    have h := h.mono (hlater.trans hlater')
    exact ⟨(blockLaidOut_some ht).mono hlater', h.eventHeader, h.eventContext, h.events⟩
  · refine .lift_bind hlayout fun _ t hlater ht => .pure fun _ hlater' => ?_
    have h := h.mono (hlater.trans hlater')
    exact ⟨h.packetContext, (blockLaidOut_some ht).mono hlater', h.eventContext, h.events⟩
  · refine .lift_bind hlayout fun _ t hlater ht => .pure fun _ hlater' => ?_
    have h := h.mono (hlater.trans hlater')
    exact ⟨h.packetContext, h.eventHeader, (blockLaidOut_some ht).mono hlater', h.events⟩
  · exact .bind (warn_ensures _) fun _ _ hlater _ => .pure fun _ hlater' =>
      h.mono (hlater.trans hlater')

lemma readEvent_ensures (hresolve : TypeM.Resolves resolve) (hbuild : TypeM.Builds build)
    (block : Node) : (readEvent resolve build block).Ensures noted EventSchema.LaidOut := by
  have hempty (later : Set String) : (EventSchema.named "").LaidOut later :=
    ⟨blockLaidOut_none, blockLaidOut_none⟩
  refine .bind (readScoped_ensures hresolve block (fun _ _ _ hlater h => h.mono hlater) hempty
    fun noted scope event kind a h => ?_) fun _ event _ h => ?_
  · have hlayout := @layoutOf_ensures noted _ hbuild scope a
    unfold assignEvent
    split
    · exact .of_bind fun _ => .pure fun _ hlater => ⟨h.context.mono hlater, h.fields.mono hlater⟩
    · exact .of_bind fun _ => .pure fun _ hlater => ⟨h.context.mono hlater, h.fields.mono hlater⟩
    · exact .of_bind fun _ => .pure fun _ hlater => ⟨h.context.mono hlater, h.fields.mono hlater⟩
    · exact .of_bind fun _ => .pure fun _ hlater => ⟨h.context.mono hlater, h.fields.mono hlater⟩
    · exact .of_bind fun _ => .pure fun _ hlater => ⟨h.context.mono hlater, h.fields.mono hlater⟩
    · exact .lift_bind hlayout fun _ t hlater ht => .pure fun _ hlater' =>
        ⟨(blockLaidOut_some ht).mono hlater', h.fields.mono (hlater.trans hlater')⟩
    · exact .lift_bind hlayout fun _ t hlater ht => .pure fun _ hlater' =>
        ⟨h.context.mono (hlater.trans hlater'), (blockLaidOut_some ht).mono hlater'⟩
    · exact .bind (warn_ensures _) fun _ _ hlater _ => .pure fun _ hlater' =>
        h.mono (hlater.trans hlater')
  · split
    · exact .of_bind fun _ => .pure fun _ hlater => h.mono hlater
    · exact .pure fun _ hlater => h.mono hlater

/-! ## Clocks and environment -/

lemma readClock_ensures (block : Node) : (readClock block).Ensures noted fun _ _ => True := by
  refine .bind (.foldlM (P := fun _ _ _ => True) (fun _ _ => trivial) fun _ _ draft node _ => ?_)
    fun _ draft _ _ => ?_
  · refine .of_bind fun a => ?_
    unfold assignClock
    split
    · exact .of_bind fun _ => .pure fun _ _ => trivial
    · exact .of_bind fun _ => .pure fun _ _ => trivial
    · exact .of_bind fun _ => .pure fun _ _ => trivial
    · refine .of_bind fun frequency => ?_
      split
      · exact .of_bind fun _ => .pure fun _ _ => trivial
      · exact .pure fun _ _ => trivial
    · exact .of_bind fun _ => .pure fun _ _ => trivial
    · exact .of_bind fun _ => .pure fun _ _ => trivial
    · exact .of_bind fun _ => .pure fun _ _ => trivial
    · exact .of_bind fun _ => .pure fun _ _ => trivial
    · exact .bind (warn_ensures _) fun _ _ _ _ => .pure fun _ _ => trivial
  · split
    · exact .pure fun _ _ => trivial
    · exact .throw

lemma readEnv_ensures (env : Dictionary String EnvValue) (block : Node) :
    (readEnv env block).Ensures noted fun _ _ => True := by
  refine .foldlM (P := fun _ _ _ => True) (fun _ _ => trivial) fun _ _ env node _ => ?_
  exact .of_bind fun a => .of_bind fun value => .pure fun _ _ => trivial

/-! ## All blocks -/

/-- A node that is neither a stream nor an event changes neither of them. -/
lemma sound_of_other {done : List Node} {blocks blocks' : Blocks} (h : blocks.Sound done noted)
    {node : Node} (hstream : node.kind ≠ .stream) (hevent : node.kind ≠ .event)
    (hstreams : blocks'.streams = blocks.streams) (hevents : blocks'.events = blocks.events)
    (htrace : ∀ trace ∈ blocks'.trace, BlockLaidOut noted trace.packetHeader) :
    blocks'.Sound (done ++ [node]) noted where
  trace := htrace
  streams := hstreams ▸ h.streams
  events := hevents ▸ h.events
  streamCount := by simp [hstreams, h.streamCount, hstream]
  eventCount := by simp [hevents, h.eventCount, hevent]

lemma readNode_ensures (hresolve : TypeM.Resolves resolve) (hbuild : TypeM.Builds build)
    {done : List Node} {blocks : Blocks} (h : blocks.Sound done noted) (node : Node) :
    (readNode resolve build blocks node).Ensures noted (Blocks.Sound (done ++ [node])) := by
  unfold readNode
  split
  · rename_i hkind
    split
    · exact .throw_bind
    · refine .bind (readTrace_ensures hresolve hbuild node) fun _ trace hlater ht => .pure fun _ hlater' => ?_
      refine sound_of_other (h.mono (hlater.trans hlater')) (by simp [hkind]) (by simp [hkind]) rfl
        rfl ?_
      rintro _ ⟨⟩
      exact ht.mono hlater'
  · rename_i hkind
    refine .bind (readStream_ensures hresolve hbuild node) fun _ stream hlater hs => .pure fun _ hlater' => ?_
    have h := h.mono (hlater.trans hlater')
    refine ⟨h.trace, ?_, h.events, ?_, ?_⟩
    · exact List.forall_mem_append.mpr ⟨h.streams, List.forall_mem_singleton.mpr (hs.mono hlater')⟩
    · simp [h.streamCount, hkind]
    · simp [h.eventCount, hkind]
  · rename_i hkind
    refine .bind (readEvent_ensures hresolve hbuild node) fun _ event hlater he => .pure fun _ hlater' => ?_
    have h := h.mono (hlater.trans hlater')
    refine ⟨h.trace, h.streams, ?_, ?_, ?_⟩
    · exact List.forall_mem_append.mpr ⟨h.events, List.forall_mem_singleton.mpr (he.mono hlater')⟩
    · simp [h.streamCount, hkind]
    · simp [h.eventCount, hkind]
  · rename_i hkind
    refine .bind (readClock_ensures node) fun _ clock hlater _ => ?_
    dsimp only
    split
    · exact .throw_bind
    · refine .pure fun _ hlater' => ?_
      have h := h.mono (hlater.trans hlater')
      exact sound_of_other h (by simp [hkind]) (by simp [hkind]) rfl rfl h.trace
  · rename_i hkind
    refine .bind (readEnv_ensures blocks.env node) fun _ env hlater _ => .pure fun _ hlater' => ?_
    have h := h.mono (hlater.trans hlater')
    exact sound_of_other h (by simp [hkind]) (by simp [hkind]) rfl rfl h.trace
  · rename_i hkind
    refine .bind (warn_ensures .callsite) fun _ _ hlater _ => .pure fun _ hlater' => ?_
    have h := h.mono (hlater.trans hlater')
    exact sound_of_other h (by simp [hkind]) (by simp [hkind]) rfl rfl h.trace
  · rename_i hkind
    refine .pure fun _ hlater => ?_
    exact sound_of_other (h.mono hlater) (by simp [hkind]) (by simp [hkind]) rfl rfl
      (h.mono hlater).trace
  · rename_i hkind
    refine .pure fun _ hlater => ?_
    exact sound_of_other (h.mono hlater) (by simp [hkind]) (by simp [hkind]) rfl rfl
      (h.mono hlater).trace
  · rename_i hkind
    refine .pure fun _ hlater => ?_
    exact sound_of_other (h.mono hlater) (by simp [hkind]) (by simp [hkind]) rfl rfl
      (h.mono hlater).trace
  · exact .throw

/-- **All layouts that a tree gives are layouts**, and all its streams and events have a block. -/
theorem readAll_ensures (hresolve : TypeM.Resolves resolve) (hbuild : TypeM.Builds build)
    (root : Node) : (readAll resolve build root).Ensures noted (Blocks.Sound root.children) := by
  have hempty (later : Set String) : Blocks.empty.Sound [] later := ⟨by simp [Blocks.empty],
    by simp [Blocks.empty], by simp [Blocks.empty], rfl, rfl⟩
  refine .lift_bind (TypeM.enterAll_keeps TypeTable.rootScope root.children) fun _ _ _ _ => ?_
  refine .bind (P := Blocks.Sound root.children) ?_ fun _ blocks _ h => ?_
  · exact .foldlM (fun later _ => hempty later) fun done _ blocks node h =>
      readNode_ensures hresolve hbuild h node
  · exact .lift_bind (TypeM.resolveAll_keeps hresolve TypeTable.rootScope) fun _ _ hlater _ =>
      .pure fun _ hlater' => h.mono (hlater.trans hlater')

end BlockM

end CommonTrace
