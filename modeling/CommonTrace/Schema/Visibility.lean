import CommonTrace.Schema.Assignment
import CommonTrace.Schema.Basic

/-!
# What a path can see

The length of a sequence and the tag of a variant are values of fields decoded earlier.  A `View` is
what is decoded earlier at some place of the schema: of each structure around the place the members
before it, and the blocks before the block it lies in.  `View.resolve?` looks up a path in a view in
the order in which decoding looks it up among values, so a path that leads nowhere is found when the
metadata is read and not with every event.

An absolute path into another block sees all of that block; one into the block it lies in sees the
members decoded so far.

## Main definitions

* `View.resolve?`: the type of the field that a path leads to.
* `View.check`: whether the lengths and tags below a place can be found.
* `Metadata.checkPaths`: the same for all blocks of all streams and events.
-/

namespace CommonTrace

/-- What a path sees from a place of the schema: the blocks decoded before, the latest first, and
the members before the place of each structure around it, those of the innermost structure first.
Of the members of one structure the latest is first. -/
structure View where
  place : BlockPlace
  earlier : List (StaticScope × FieldType)
  frames : List (List (String × FieldType))

namespace View

/-- The type of the field of the given name in a block: in the block that the place lies in, among
the members decoded so far. -/
def headInBlock? (view : View) (block : StaticScope) (name : String) : Option FieldType :=
  if block = view.place.block then view.frames.getLast?.bind (·.lookup name)
  else (view.earlier.lookup block).bind (·.member? name)

/-- The type of the nearest field of the given name after climbing `up` structures. -/
def headFrom? (view : View) (up : Nat) (name : String) : Option FieldType :=
  match (view.frames.drop up).findSome? (·.lookup name) with
  | some t => some t
  | none => view.earlier.findSome? fun (_, t) => t.member? name

def head? (view : View) (path : FieldPath) : Option FieldType :=
  match path.anchor with
  | .absolute block => view.headInBlock? block path.head
  | .relative up => view.headFrom? up path.head

def resolve? (view : View) (path : FieldPath) : Option FieldType :=
  (view.head? path).bind (·.descend? path.tail)

/-- Whether values of a type can be the length of a sequence. -/
def isLength : FieldType → Bool
  | .integer _ | .enum _ => true
  | _ => false

/-- Whether values of a type can be the tag of a variant. -/
def isTag : FieldType → Bool
  | .enum _ | .string _ => true
  | _ => false

/-- Stops at a path that does not lead to a type of the given kind. -/
def expect (view : View) (path : FieldPath) (accepts : FieldType → Bool) :
    Except SchemaError Unit :=
  if (view.resolve? path).any accepts then .ok () else .error (.unresolvedPath path view.place)

/-- Stops at elements that take no bits, as any number of them could be decoded from nothing. -/
def expectBits (view : View) (element : FieldType) : Except SchemaError Unit :=
  if element.occupiesNoBits then invalid (.elementsWithoutBits element.kind view.place) else .ok ()

/-- The view from a member of a structure, where `before` are the members before it. -/
def enter (view : View) (before : List (String × FieldType)) : View :=
  { view with frames := before :: view.frames }

mutual

/-- Stops at a length or a tag that cannot be found. -/
def check (view : View) (t : FieldType) : Except SchemaError Unit :=
  match t with
  | .integer _ | .float _ | .string _ | .enum _ => .ok ()
  | .array element _ => do
    view.expectBits element
    check view element
  | .sequence element path => do
    view.expect path isLength
    view.expectBits element
    check view element
  | .struct _ fields => checkFields view [] fields
  | .variant none _ => invalid (.variantUntagged view.place)
  | .variant (some tag) alternatives => do
    view.expect tag isTag
    checkAlternatives view alternatives
termination_by structural t

/-- Stops at a length or a tag that cannot be found in the fields of a structure, where `before` are
the fields before them, the latest first. -/
def checkFields (view : View) (before fields : List (String × FieldType)) :
    Except SchemaError Unit :=
  match fields with
  | [] => .ok ()
  | (name, t) :: rest => do
    check (view.enter before) t
    checkFields view ((name, t) :: before) rest
termination_by structural fields

def checkAlternatives (view : View) (alternatives : List (String × FieldType)) :
    Except SchemaError Unit :=
  match alternatives with
  | [] => .ok ()
  | (_, t) :: rest => do
    check view t
    checkAlternatives view rest
termination_by structural alternatives

end

end View

/-! ## All blocks of a trace -/

def declaredBlocks (blocks : List (StaticScope × Option FieldType)) :
    List (StaticScope × FieldType) :=
  blocks.filterMap fun (block, t) => t.map (block, ·)

/-- Checks one block after the other, where `earlier` are the blocks before them, the latest
first. -/
def checkBlocks (stream : Nat) (event : Option String) (earlier : List (StaticScope × FieldType)) :
    List (StaticScope × FieldType) → Except SchemaError Unit
  | [] => .ok ()
  | (block, t) :: rest => do
    View.check { place := { stream, event, block }, earlier, frames := [] } t
    checkBlocks stream event ((block, t) :: earlier) rest

/-- The blocks before the events of a stream, in the order in which they are decoded. -/
def Metadata.streamBlocks (metadata : Metadata) (stream : StreamSchema) :
    List (StaticScope × FieldType) :=
  declaredBlocks
    [(.tracePacketHeader, metadata.packetHeader), (.streamPacketContext, stream.packetContext),
      (.streamEventHeader, stream.eventHeader), (.streamEventContext, stream.eventContext)]

/-- The blocks that are particular to an event, in the order in which they are decoded. -/
def EventSchema.blocks (event : EventSchema) : List (StaticScope × FieldType) :=
  declaredBlocks [(.eventContext, event.context), (.eventFields, event.fields)]

/-- The layouts of all that is decoded for an event. -/
def EventSchema.layout (stream : StreamSchema) (event : EventSchema) : List FieldType :=
  [stream.eventHeader, stream.eventContext, event.context, event.fields].filterMap fun t => t

/-- Checks an event of a stream.  An event must take some bits, so that the events of a packet come
to an end. -/
def checkEvent (metadata : Metadata) (key : Nat) (stream : StreamSchema) (event : EventSchema) :
    Except SchemaError Unit := do
  checkBlocks key (some event.name) (metadata.streamBlocks stream).reverse event.blocks
  if (event.layout stream).all FieldType.occupiesNoBits then
    invalid (.eventWithoutBits event.name key)

def checkStream (metadata : Metadata) (key : Nat) (stream : StreamSchema) :
    Except SchemaError Unit := do
  checkBlocks key none [] (metadata.streamBlocks stream)
  stream.eventList.forM (checkEvent metadata key stream)

/-- Stops at a length or a tag that cannot be found when the trace is decoded. -/
def Metadata.checkPaths (metadata : Metadata) : Except SchemaError Unit :=
  metadata.streams.entries.forM fun (key, stream) => checkStream metadata key stream

end CommonTrace
