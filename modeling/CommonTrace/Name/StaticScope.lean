/-!
# Static scopes

Metadata names the parts of a trace by dotted paths.  The names form a fixed tree:

```text
root
├── trace ── packet ── header
├── stream ─┬ packet ── context
│           └ event ──┬ header
│                     └ context
├── event ──┬ context
│           └ fields
├── env
└── clock
```

Six of its leaves are *blocks*: binary data is decoded into them.  A path is absolute when it starts
with the name of a block, followed by something inside the block.

## Main definitions

* `StaticScope.walk?`: splits an absolute path by descending the tree.
* `StaticScope.splitAbsolute?`: the same with the most frequent blocks tried first.
-/

namespace CommonTrace

/-- A node of the tree of names. -/
inductive StaticScope where
  | root
  | trace
  | tracePacket
  | tracePacketHeader
  | stream
  | streamPacket
  | streamPacketContext
  | streamEvent
  | streamEventHeader
  | streamEventContext
  | event
  | eventContext
  | eventFields
  | env
  | clock
deriving DecidableEq, Repr

namespace StaticScope

/-- Every node, each before its children and siblings in the order of the tree. -/
def all : List StaticScope :=
  [root, trace, tracePacket, tracePacketHeader, stream, streamPacket, streamPacketContext,
    streamEvent, streamEventHeader, streamEventContext, event, eventContext, eventFields, env,
    clock]

/-- The blocks, in the order in which they are decoded. -/
def blocks : List StaticScope :=
  [tracePacketHeader, streamPacketContext, streamEventHeader, streamEventContext, eventContext,
    eventFields]

/-- Whether binary data is decoded into this scope. -/
def isBlock (scope : StaticScope) : Bool :=
  blocks.contains scope

/-- The names on the way from the root down to this node. -/
def segments : StaticScope → List String
  | root => []
  | trace => ["trace"]
  | tracePacket => ["trace", "packet"]
  | tracePacketHeader => ["trace", "packet", "header"]
  | stream => ["stream"]
  | streamPacket => ["stream", "packet"]
  | streamPacketContext => ["stream", "packet", "context"]
  | streamEvent => ["stream", "event"]
  | streamEventHeader => ["stream", "event", "header"]
  | streamEventContext => ["stream", "event", "context"]
  | event => ["event"]
  | eventContext => ["event", "context"]
  | eventFields => ["event", "fields"]
  | env => ["env"]
  | clock => ["clock"]

def parent? : StaticScope → Option StaticScope
  | root => none
  | trace | stream | event | env | clock => some root
  | tracePacket => some trace
  | tracePacketHeader => some tracePacket
  | streamPacket | streamEvent => some stream
  | streamPacketContext => some streamPacket
  | streamEventHeader | streamEventContext => some streamEvent
  | eventContext | eventFields => some event

/-- The name of this node among its siblings; the root has the empty name. -/
def name (scope : StaticScope) : String :=
  scope.segments.getLast?.getD ""

def path (scope : StaticScope) : String :=
  ".".intercalate scope.segments

def children (scope : StaticScope) : List StaticScope :=
  all.filter (·.parent? = some scope)

def child? (scope : StaticScope) (name : String) : Option StaticScope :=
  scope.children.find? (·.name == name)

/-- The path of a node is that of its parent with its own name behind it. -/
theorem segments_of_parent? {scope above : StaticScope} (h : scope.parent? = some above) :
    scope.segments = above.segments ++ [scope.name] := by
  cases scope <;> cases h <;> rfl

/-! ## Absolute paths -/

/-- Descends from `scope` along the segments of a path to the first block, and returns the block
with the text behind it.  There is no answer if a segment names no child, if the path ends above a
block, or if nothing stands behind the block. -/
def descend? (scope : StaticScope) : List (List Char) → Option (StaticScope × List Char)
  | [] => none
  | segment :: rest =>
    match scope.child? (String.ofList segment) with
    | none => none
    | some child =>
      if child.isBlock then
        let inside := ['.'].intercalate rest
        if inside.isEmpty then none else some (child, inside)
      else child.descend? rest

/-- Splits an absolute path into its block and the rest by descending the tree. -/
def walk? (path : List Char) : Option (StaticScope × List Char) :=
  root.descend? (path.splitOn '.')

/-- The blocks that nearly every absolute path starts with. -/
def frequentBlocks : List StaticScope :=
  [streamEventHeader, eventFields, eventContext, tracePacketHeader]

/-- What follows the path of `scope` and a dot at the start of a text. -/
def inside? (scope : StaticScope) (text : List Char) : Option (List Char) :=
  let opening := scope.path.toList ++ ['.']
  if opening.isPrefixOf text then some (text.drop opening.length) else none

/-- Splits an absolute path into its block and the rest.  For a frequent block the rest may be
empty. -/
def splitAbsolute? (path : List Char) : Option (StaticScope × List Char) :=
  match frequentBlocks.findSome? fun scope => (scope.inside? path).map (scope, ·) with
  | some found => some found
  | none => walk? path

end StaticScope

end CommonTrace
