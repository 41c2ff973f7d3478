import CommonTrace.Proofs.Schema.Steps
import CommonTrace.Schema.OfTree
import Mathlib.Data.List.Forall2

/-!
# Streams and events say what their blocks say

The block of a stream or an event is a list of assignments, and where a key is assigned to more than once
the last assignment counts.  `Tsdl.Node.lastValue?` reads this off the block by itself.  That the streams and the
events that are read have these values (`Tsdl.Node.DeclareStream`, `Tsdl.Node.DeclareEvent`), one for each
block and in the order of the blocks, is `BlockM.readAll_gives`.
-/

namespace CommonTrace

open Tsdl

/-! ## Values in a block -/

namespace Tsdl.Node

/-- The assignments of values to a key, among some nodes. -/
def assignmentsTo (key : String) (nodes : List Node) : List Assignment :=
  nodes.filterMap fun node =>
    if node.kind = .ctfExpressionVal then (Assignment.ofNode node).toOption.filter (·.key = key)
    else none

/-- What the last assignment of a value to a key gives, if it can be read. -/
def lastValue? {α : Type} (read : Assignment → Except SchemaError α) (key : String)
    (nodes : List Node) : Option α :=
  (assignmentsTo key nodes).getLast?.bind fun a => (read a).toOption

/-- The stream has the id that the nodes give, and no events yet. -/
structure DeclareStream (nodes : List Node) (stream : StreamSchema) : Prop where
  id : stream.id = lastValue? Assignment.unsigned "id" nodes
  events : stream.events = .empty
  anonymousEvent : stream.anonymousEvent = none

/-- The event has the name, the ids and the other values that the nodes give. -/
structure DeclareEvent (nodes : List Node) (event : EventSchema) : Prop where
  name : event.name = (lastValue? Assignment.string "name" nodes).getD ""
  id : event.id = lastValue? Assignment.unsigned "id" nodes
  streamId : event.streamId = lastValue? Assignment.unsigned "stream_id" nodes
  logLevel : event.logLevel = lastValue? Assignment.signed "loglevel" nodes
  emfUri : event.emfUri = lastValue? Assignment.string "model.emf.uri" nodes

variable {α : Type} {read : Assignment → Except SchemaError α} {key : String} {nodes : List Node}
  {node : Node} {a : Assignment}

lemma lastValue?_concat (ha : Assignment.ofNode node = .ok a) :
    lastValue? read key (nodes ++ [node]) =
      if node.kind = .ctfExpressionVal ∧ a.key = key then (read a).toOption
      else lastValue? read key nodes := by
  have hone : assignmentsTo key [node] =
      if node.kind = .ctfExpressionVal ∧ a.key = key then [a] else [] := by
    by_cases hkind : node.kind = .ctfExpressionVal <;> by_cases hkey : a.key = key <;>
      simp [assignmentsTo, hkind, ha, hkey, Except.toOption, Option.filter]
  rw [lastValue?, assignmentsTo, List.filterMap_append, ← assignmentsTo, ← assignmentsTo, hone]
  split
  · rw [List.getLast?_concat, Option.bind_some]
  · rw [List.append_nil, ← lastValue?]

/-- Only assignments have a say. -/
lemma lastValue?_assignmentNodes (block : Node) :
    lastValue? read key (BlockM.assignmentNodes block) = lastValue? read key block.children := by
  have hsame : assignmentsTo key (BlockM.assignmentNodes block) = assignmentsTo key block.children := by
    rw [assignmentsTo, BlockM.assignmentNodes, List.filterMap_filter]
    refine congrArg (List.filterMap · block.children) (funext fun node => ?_)
    by_cases hkind : node.kind = .ctfExpressionVal <;> simp [hkind]
  rw [lastValue?, lastValue?, hsame]

end Tsdl.Node

/-! ## Steps and what they give -/

namespace BlockM

variable {α β : Type} {P : α → Prop} {Q : β → Prop}

/-- Whenever the step succeeds, its result has `P`. -/
def Gives (P : α → Prop) (step : BlockM α) : Prop :=
  ∀ warnings table a warnings' table', step warnings table = .ok ((a, warnings'), table') → P a

namespace Gives

lemma pure {a : α} (ha : P a) : (Pure.pure a : BlockM α).Gives P := by
  intro _ _ _ _ _ h
  cases h
  exact ha

lemma throw (error : SchemaError) : (MonadExcept.throw error : BlockM α).Gives P := by
  intro _ _ _ _ _ h
  cases h

lemma bind {step : BlockM α} {next : α → BlockM β} (hstep : step.Gives P)
    (hnext : ∀ a, P a → (next a).Gives Q) : (step >>= next).Gives Q := by
  intro _ _ b _ _ h
  obtain ⟨⟨⟨a, _⟩, _⟩, hfirst, hrest⟩ := exists_of_bind_eq_ok h
  exact hnext a (hstep _ _ _ _ _ hfirst) _ _ b _ _ hrest

lemma throw_bind (error : SchemaError) {next : α → BlockM β} :
    ((MonadExcept.throw error : BlockM α) >>= next).Gives Q :=
  bind (P := fun _ => False) (throw error) fun _ h => h.elim

/-- It is the last step that gives the result. -/
lemma last {step : BlockM α} {next : α → BlockM β} (hnext : ∀ a, (next a).Gives Q) :
    (step >>= next).Gives Q :=
  bind (P := fun _ => True) (fun _ _ _ _ _ _ => trivial) fun a _ => hnext a

/-- Where something is read that has nothing to do with the table, it has been read. -/
lemma of_bind {x : Except SchemaError α} {next : α → BlockM β}
    (hnext : ∀ a, x = .ok a → (next a).Gives Q) : ((liftM x : BlockM α) >>= next).Gives Q := by
  cases x with
  | error error =>
    intro _ _ _ _ _ h
    cases h
  | ok a => exact hnext a rfl

/-- A loop keeps what each of its rounds keeps of the items that have been gone through. -/
lemma foldlM {ι : Type} {P : List ι → α → Prop} {step : α → ι → BlockM α} {items : List ι} {start : α}
    (hstart : P [] start) (hstep : ∀ done a item, P done a → (step a item).Gives (P (done ++ [item]))) :
    (items.foldlM step start).Gives (P items) := by
  suffices h : ∀ (rest done : List ι) (a : α), P done a → (rest.foldlM step a).Gives (P (done ++ rest)) from
    h items [] start hstart
  intro rest
  induction rest with
  | nil =>
    intro done a ha
    rw [List.append_nil]
    exact pure ha
  | cons item rest ih =>
    intro done a ha
    rw [List.foldlM_cons, ← List.singleton_append, ← List.append_assoc]
    exact bind (hstep done a item ha) fun b hb => ih (done ++ [item]) b hb

end Gives

variable {resolve : TypeScopeId → String → TypeM FieldType} {build : TypeScopeId → Node → TypeM FieldType}

/-- What each assignment of a block keeps. -/
lemma readScoped_gives {P : List Node → α → Prop} (block : Node) {start : α} (hstart : P [] start)
    {assign : TypeScopeId → α → NodeKind → Assignment → BlockM α}
    (hassign : ∀ scope done draft node a, P done draft → Assignment.ofNode node = .ok a →
      (assign scope draft node.kind a).Gives (P (done ++ [node]))) :
    (readScoped resolve block start assign).Gives (P (assignmentNodes block)) := by
  refine .last fun scope => .last fun _ => ?_
  refine .bind (.foldlM hstart fun done draft node h => .of_bind fun a ha => ?_) fun result h => ?_
  · exact hassign scope done draft node a h ha
  · exact .last fun _ => .pure h

/-! ## Streams and events -/

section Blocks

open Node

variable {nodes : List Node} {node : Node} {a : Assignment}

lemma assignStream_gives {stream : StreamSchema} (h : DeclareStream nodes stream)
    (ha : Assignment.ofNode node = .ok a) (scope : TypeScopeId) :
    (assignStream build scope stream node.kind a).Gives (DeclareStream (nodes ++ [node])) := by
  obtain ⟨hid, hevents, hanonymous⟩ := h
  have hkept (hother : ¬ (node.kind = .ctfExpressionVal ∧ a.key = "id")) :
      stream.id = lastValue? Assignment.unsigned "id" (nodes ++ [node]) := by
    rw [lastValue?_concat ha, if_neg hother]
    exact hid
  unfold assignStream
  split
  case h_1 hkind hkey =>
    refine .of_bind fun id hread => .pure ⟨?_, hevents, hanonymous⟩
    rw [lastValue?_concat ha, if_pos ⟨hkind, hkey⟩, hread]
    rfl
  case h_2 hkind _ | h_3 hkind _ | h_4 hkind _ =>
    exact .last fun _ => .pure ⟨hkept (by simp [hkind]), hevents, hanonymous⟩
  case h_5 hid _ _ _ =>
    exact .last fun _ => .pure ⟨hkept fun hother => hid hother.1 hother.2, hevents, hanonymous⟩

lemma assignEvent_gives {event : EventSchema} (h : DeclareEvent nodes event)
    (ha : Assignment.ofNode node = .ok a) (scope : TypeScopeId) :
    (assignEvent build scope event node.kind a).Gives (DeclareEvent (nodes ++ [node])) := by
  obtain ⟨hname, hid, hstreamId, hlogLevel, hemfUri⟩ := h
  unfold assignEvent
  split
  case h_1 hkind hkey | h_2 hkind hkey | h_3 hkind hkey | h_4 hkind hkey | h_5 hkind hkey =>
    refine .of_bind fun value hread => .pure ?_
    constructor <;>
      simp [lastValue?_concat ha, hkind, hkey, hread, Except.toOption, hname, hid, hstreamId, hlogLevel,
        hemfUri]
  case h_6 hkind _ | h_7 hkind _ =>
    refine .last fun _ => .pure ?_
    constructor <;> simp [lastValue?_concat ha, hkind, hname, hid, hstreamId, hlogLevel, hemfUri]
  case h_8 hnoName hnoId hnoStream hnoLevel hnoUri _ _ =>
    have hsame {α : Type} {read : Assignment → Except SchemaError α} {key : String}
        (hno : node.kind = .ctfExpressionVal → a.key = key → False) :
        lastValue? read key (nodes ++ [node]) = lastValue? read key nodes := by
      rw [lastValue?_concat ha, if_neg fun h => hno h.1 h.2]
    exact .last fun _ => .pure ⟨by rwa [hsame hnoName], by rwa [hsame hnoId], by rwa [hsame hnoStream],
      by rwa [hsame hnoLevel], by rwa [hsame hnoUri]⟩

/-- **A stream has the values of its block.** -/
theorem readStream_gives (block : Node) :
    (readStream resolve build block).Gives (DeclareStream block.children) := by
  have hscoped : (readStream resolve build block).Gives (DeclareStream (assignmentNodes block)) :=
    readScoped_gives block ⟨rfl, rfl, rfl⟩ fun scope _ _ _ _ h ha => assignStream_gives h ha scope
  intro warnings table stream warnings' table' h
  obtain ⟨hid, hevents, hanonymous⟩ := hscoped _ _ _ _ _ h
  exact ⟨lastValue?_assignmentNodes block ▸ hid, hevents, hanonymous⟩

/-- **An event has the values of its block**, and a name is among them. -/
theorem readEvent_gives (block : Node) :
    (readEvent resolve build block).Gives fun event =>
      DeclareEvent block.children event ∧ event.name ≠ "" := by
  refine .bind (readScoped_gives (P := DeclareEvent) block ⟨rfl, rfl, rfl, rfl, rfl⟩
    fun scope _ _ _ _ h ha => assignEvent_gives h ha scope) fun event h => ?_
  split
  · exact .of_bind fun _ hnone => by cases hnone
  · rename_i hnamed
    obtain ⟨hname, hid, hstreamId, hlogLevel, hemfUri⟩ := h
    rw [lastValue?_assignmentNodes] at hname hid hstreamId hlogLevel hemfUri
    refine .pure ⟨⟨hname, hid, hstreamId, hlogLevel, hemfUri⟩, ?_⟩
    simpa [String.isEmpty_iff] using hnamed

end Blocks

end BlockM

/-! ## Trees -/

/-- **What the streams and the events of some nodes say**: there is one for each block, in the order of the
blocks, with the values of the block. -/
structure Blocks.Declared (nodes : List Node) (blocks : Blocks) : Prop where
  streams : List.Forall₂ (fun block stream => Node.DeclareStream block.children stream)
    (nodes.filter (·.kind = .stream)) blocks.streams
  events : List.Forall₂ (fun block event => Node.DeclareEvent block.children event ∧ event.name ≠ "")
    (nodes.filter (·.kind = .event)) blocks.events

namespace BlockM

variable {resolve : TypeScopeId → String → TypeM FieldType} {build : TypeScopeId → Node → TypeM FieldType}
  {nodes : List Node} {node : Node} {blocks blocks' : Blocks}

lemma declared_of_other (h : blocks.Declared nodes) (hstream : node.kind ≠ .stream)
    (hevent : node.kind ≠ .event) (hstreams : blocks'.streams = blocks.streams)
    (hevents : blocks'.events = blocks.events) : blocks'.Declared (nodes ++ [node]) where
  streams := by
    rw [List.filter_append, List.filter_cons_of_neg (by simpa using hstream), List.filter_nil,
      List.append_nil, hstreams]
    exact h.streams
  events := by
    rw [List.filter_append, List.filter_cons_of_neg (by simpa using hevent), List.filter_nil,
      List.append_nil, hevents]
    exact h.events

lemma readNode_gives (h : blocks.Declared nodes) (node : Node) :
    (readNode resolve build blocks node).Gives (Blocks.Declared (nodes ++ [node])) := by
  have hother {blocks' : Blocks} (hstream : node.kind ≠ .stream) (hevent : node.kind ≠ .event)
      (hstreams : blocks'.streams = blocks.streams) (hevents : blocks'.events = blocks.events) :=
    declared_of_other h hstream hevent hstreams hevents
  unfold readNode
  split
  case h_1 hkind =>
    split
    · exact .throw_bind _
    · exact .last fun _ => .pure (hother (by simp [hkind]) (by simp [hkind]) rfl rfl)
  case h_2 hkind =>
    refine .bind (readStream_gives node) fun stream hstream => .pure ⟨?_, ?_⟩
    · rw [List.filter_append, List.filter_cons_of_pos (by simpa using hkind)]
      exact List.rel_append h.streams (.cons hstream .nil)
    · rw [List.filter_append, List.filter_cons_of_neg (by simp [hkind])]
      simpa using h.events
  case h_3 hkind =>
    refine .bind (readEvent_gives node) fun event hevent => .pure ⟨?_, ?_⟩
    · rw [List.filter_append, List.filter_cons_of_neg (by simp [hkind])]
      simpa using h.streams
    · rw [List.filter_append, List.filter_cons_of_pos (by simpa using hkind)]
      exact List.rel_append h.events (.cons hevent .nil)
  case h_4 hkind =>
    refine .last fun clock => ?_
    split
    · exact .throw_bind _
    · exact .pure (hother (by simp [hkind]) (by simp [hkind]) rfl rfl)
  case h_5 hkind | h_6 hkind =>
    exact .last fun _ => .pure (hother (by simp [hkind]) (by simp [hkind]) rfl rfl)
  case h_7 hkind | h_8 hkind | h_9 hkind =>
    exact .pure (hother (by simp [hkind]) (by simp [hkind]) rfl rfl)
  case h_10 => exact .throw _

/-- **The blocks that are read from a tree say what the nodes under the root say.** -/
theorem readAll_gives (root : Node) :
    (readAll resolve build root).Gives (Blocks.Declared root.children) := by
  have hloop : (root.children.foldlM (readNode resolve build) .empty).Gives
      (Blocks.Declared root.children) :=
    .foldlM (P := Blocks.Declared) ⟨.nil, .nil⟩ fun _ _ node h => readNode_gives h node
  exact .last fun _ => .bind hloop fun _ h => .last fun _ => .pure h

end BlockM

namespace Metadata

/-- The blocks of a tree with the byte order of the trace and with what was passed over, if all of them can be
read and all clocks that they refer to are declared. -/
def readBlocks (root : Node) : Except SchemaError (ByteOrder × Blocks × List Warning) := do
  if root.kind ≠ .root then malformed .rootExpected
  let declared ← traceByteOrder? root
  let byteOrder := declared.getD .little
  let assumed := if declared.isSome then [] else [.byteOrderMissing]
  let build := TypeM.buildSpecifiers (root.weight + 1)
  let ((blocks, passedOver), table) ←
    ((BlockM.readAll (TypeM.resolveNamed build) build root).run assumed).run (.empty byteOrder)
  checkClocks blocks.clocks table.clocks.toList
  return (byteOrder, blocks, passedOver ++ table.warnings.toList)

variable {root : Node} {byteOrder : ByteOrder} {blocks : Blocks} {warnings : List Warning}

/-- Metadata is what its blocks say, with the events bound to their streams and all paths checked. -/
lemma ofTree_eq_readBlocks_bind (root : Node) :
    ofTree root = readBlocks root >>= fun (byteOrder, blocks, warnings) => do
      let streams ← bindEvents blocks.streams blocks.events
      let metadata := ofBlocks byteOrder blocks streams warnings
      metadata.checkPaths
      return metadata := by
  unfold ofTree readBlocks
  by_cases hkind : root.kind ≠ .root
  · rw [if_pos hkind, if_pos hkind]
    rfl
  · rw [if_neg hkind, if_neg hkind]
    simp only [bind_assoc, pure_bind]

lemma declared_of_readBlocks (h : readBlocks root = .ok (byteOrder, blocks, warnings)) :
    blocks.Declared root.children := by
  unfold readBlocks at h
  split at h
  · cases h
  obtain ⟨declared, -, h⟩ := exists_of_bind_eq_ok h
  obtain ⟨⟨⟨read, passedOver⟩, table⟩, hread, h⟩ := exists_of_bind_eq_ok h
  obtain ⟨_, -, h⟩ := exists_of_bind_eq_ok h
  cases h
  exact BlockM.readAll_gives root _ _ _ _ _ hread

end Metadata

end CommonTrace
