import CommonTrace.Schema.Basic
import CommonTrace.Schema.TypeExpression

/-!
# Blocks

Metadata consists of blocks: one that describes the trace as a whole, and any number that describe
streams, events, clocks and the environment.  A block is a list of assignments.  Those of a value
give a property, those of a type give the layout of one of the blocks of a trace, which has to be a
structure; what has another key is noted and passed over.

The blocks of the trace, of a stream and of an event are scopes for the types declared in them.  All
these types are built, used or not.

Blocks are collected in `Blocks`, in the order of the text; what an event has to do with a stream is
not looked at here.
-/

namespace CommonTrace

open Tsdl

/-- A step in reading blocks, which collects what is passed over in them. -/
abbrev BlockM := StateT (List Warning) TypeM

/-- What the block of a trace declares. -/
structure TraceBlock where
  major : Option Nat
  minor : Option Nat
  uuid : Option Uuid
  packetHeader : Option FieldType

namespace TraceBlock

def empty : TraceBlock where
  major := none
  minor := none
  uuid := none
  packetHeader := none

end TraceBlock

/-- The blocks of metadata.  No events are bound to the streams yet. -/
structure Blocks where
  trace : Option TraceBlock
  streams : List StreamSchema
  events : List EventSchema
  clocks : Dictionary String Clock
  env : Dictionary String EnvValue

def Blocks.empty : Blocks where
  trace := none
  streams := []
  events := []
  clocks := .empty
  env := .empty

namespace BlockM

def warn (warning : Warning) : BlockM Unit :=
  modify (· ++ [warning])

/-! ## Parts of blocks -/

def assignmentNodes (block : Node) : List Node :=
  block.children.filter fun node => node.kind = .ctfExpressionVal || node.kind = .ctfExpressionType

def uuidOf (a : Assignment) : Except SchemaError Uuid := do
  let text ← a.string
  match Uuid.ofString? text with
  | some uuid => return uuid
  | none => invalid (.uuid text)

/-- The layout that an assignment gives to a block of the trace. -/
def layoutOf (build : TypeScopeId → Node → TypeM FieldType) (scope : TypeScopeId) (a : Assignment) :
    TypeM FieldType := do
  let specifiers ← a.type
  let t ← TypeM.buildType build scope specifiers a.declarator?
  if t.isStruct then return t else TypeM.invalid (.blockNotStruct a.key t.kind)

/-- Reads a block that is a scope for types, where `assign` takes one assignment into account. -/
def readScoped {α : Type} (resolve : TypeScopeId → String → TypeM FieldType) (block : Node)
    (start : α) (assign : TypeScopeId → α → NodeKind → Assignment → BlockM α) : BlockM α := do
  let scope ← TypeM.openScope TypeTable.rootScope
  TypeM.enterAll scope block.children
  let result ← (assignmentNodes block).foldlM
    (fun draft node => do assign scope draft node.kind (← Assignment.ofNode node)) start
  TypeM.resolveAll resolve scope
  return result

/-! ## Trace, streams and events -/

/-- Takes an assignment of the trace block into account.  The byte order is known before any block
is read. -/
def assignTrace (build : TypeScopeId → Node → TypeM FieldType) (scope : TypeScopeId)
    (trace : TraceBlock) (kind : NodeKind) (a : Assignment) : BlockM TraceBlock := do
  match kind, a.key with
  | .ctfExpressionVal, "major" => return { trace with major := some (← a.unsigned) }
  | .ctfExpressionVal, "minor" => return { trace with minor := some (← a.unsigned) }
  | .ctfExpressionVal, "uuid" => return { trace with uuid := some (← uuidOf a) }
  | .ctfExpressionVal, "byte_order" => return trace
  | .ctfExpressionType, "packet.header" =>
    return { trace with packetHeader := some (← layoutOf build scope a) }
  | _, key =>
    warn (.attribute "trace" key)
    return trace

/-- Notes a major version other than 1. -/
def checkMajor (trace : TraceBlock) : BlockM Unit :=
  match trace.major with
  | some major => if major = 1 then pure () else warn (.majorVersion major)
  | none => pure ()

def readTrace (resolve : TypeScopeId → String → TypeM FieldType)
    (build : TypeScopeId → Node → TypeM FieldType) (block : Node) : BlockM TraceBlock := do
  let trace ← readScoped resolve block .empty (assignTrace build)
  checkMajor trace
  return trace

def assignStream (build : TypeScopeId → Node → TypeM FieldType) (scope : TypeScopeId)
    (stream : StreamSchema) (kind : NodeKind) (a : Assignment) : BlockM StreamSchema := do
  match kind, a.key with
  | .ctfExpressionVal, "id" => return { stream with id := some (← a.unsigned) }
  | .ctfExpressionType, "packet.context" =>
    return { stream with packetContext := some (← layoutOf build scope a) }
  | .ctfExpressionType, "event.header" =>
    return { stream with eventHeader := some (← layoutOf build scope a) }
  | .ctfExpressionType, "event.context" =>
    return { stream with eventContext := some (← layoutOf build scope a) }
  | _, key =>
    warn (.attribute "stream" key)
    return stream

def readStream (resolve : TypeScopeId → String → TypeM FieldType)
    (build : TypeScopeId → Node → TypeM FieldType) (block : Node) : BlockM StreamSchema :=
  readScoped resolve block .empty (assignStream build)

def assignEvent (build : TypeScopeId → Node → TypeM FieldType) (scope : TypeScopeId)
    (event : EventSchema) (kind : NodeKind) (a : Assignment) : BlockM EventSchema := do
  match kind, a.key with
  | .ctfExpressionVal, "name" => return { event with name := ← a.string }
  | .ctfExpressionVal, "id" => return { event with id := some (← a.unsigned) }
  | .ctfExpressionVal, "stream_id" => return { event with streamId := some (← a.unsigned) }
  | .ctfExpressionVal, "loglevel" => return { event with logLevel := some (← a.signed) }
  | .ctfExpressionVal, "model.emf.uri" => return { event with emfUri := some (← a.string) }
  | .ctfExpressionType, "context" =>
    return { event with context := some (← layoutOf build scope a) }
  | .ctfExpressionType, "fields" => return { event with fields := some (← layoutOf build scope a) }
  | _, key =>
    warn (.attribute "event" key)
    return event

def readEvent (resolve : TypeScopeId → String → TypeM FieldType)
    (build : TypeScopeId → Node → TypeM FieldType) (block : Node) : BlockM EventSchema := do
  let event ← readScoped resolve block (.named "") (assignEvent build)
  if event.name.isEmpty then invalid .eventNameMissing
  return event

/-! ## Clocks and environment -/

/-- The properties of a clock that have been set, where the name may be missing. -/
structure ClockDraft where
  name : Option String
  rest : Clock

def assignClock (draft : ClockDraft) (a : Assignment) : BlockM ClockDraft := do
  match a.key with
  | "name" => return { draft with name := some (← a.string) }
  | "uuid" => return { draft with rest.uuid := some (← uuidOf a) }
  | "description" => return { draft with rest.description := some (← a.string) }
  | "freq" =>
    let frequency ← a.unsigned
    if frequency = 0 then invalid .clockFrequencyZero
    return { draft with rest.frequency := frequency }
  | "offset_s" => return { draft with rest.offsetSeconds := ← a.signed }
  | "offset" => return { draft with rest.offsetCycles := ← a.signed }
  | "precision" => return { draft with rest.precision := ← a.unsigned }
  | "absolute" => return { draft with rest.absolute := ← a.boolean }
  | key =>
    warn (.attribute "clock" key)
    return draft

def readClock (block : Node) : BlockM Clock := do
  let draft ← (block.childrenOf .ctfExpressionVal).foldlM
    (fun draft node => do assignClock draft (← Assignment.ofNode node)) ⟨none, .named ""⟩
  match draft.name with
  | some name => return { draft.rest with name }
  | none => invalid .clockNameMissing

/-- The value of an entry of the environment: a number if it reads as one, and a text otherwise. -/
def envValueOf (a : Assignment) : Except SchemaError EnvValue :=
  match a.signed with
  | .ok n => .ok (.integer n)
  | .error _ => EnvValue.string <$> a.string

def readEnv (env : Dictionary String EnvValue) (block : Node) :
    BlockM (Dictionary String EnvValue) :=
  (block.childrenOf .ctfExpressionVal).foldlM
    (fun env node => do
      let a ← Assignment.ofNode node
      return env.insert a.key (← envValueOf a))
    env

/-! ## All blocks -/

def readNode (resolve : TypeScopeId → String → TypeM FieldType)
    (build : TypeScopeId → Node → TypeM FieldType) (blocks : Blocks) (node : Node) :
    BlockM Blocks := do
  match node.kind with
  | .trace =>
    if blocks.trace.isSome then throw (.repeated .traceBlock)
    return { blocks with trace := some (← readTrace resolve build node) }
  | .stream => return { blocks with streams := blocks.streams ++ [← readStream resolve build node] }
  | .event => return { blocks with events := blocks.events ++ [← readEvent resolve build node] }
  | .clock =>
    let clock ← readClock node
    if blocks.clocks.contains clock.name then throw (.repeated (.clock clock.name))
    return { blocks with clocks := blocks.clocks.insert clock.name clock }
  | .env => return { blocks with env := ← readEnv blocks.env node }
  | .callsite =>
    warn .callsite
    return blocks
  | .typeAlias | .typeDef | .typeDeclaration => return blocks
  | kind => malformed (.unexpectedTopLevel kind)

/-- Reads the blocks under the root, and then builds the types that are declared beside them. -/
def readAll (resolve : TypeScopeId → String → TypeM FieldType)
    (build : TypeScopeId → Node → TypeM FieldType) (root : Node) : BlockM Blocks := do
  TypeM.enterAll TypeTable.rootScope root.children
  let blocks ← root.children.foldlM (readNode resolve build) .empty
  TypeM.resolveAll resolve TypeTable.rootScope
  return blocks

end BlockM

end CommonTrace
