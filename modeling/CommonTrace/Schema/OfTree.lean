import CommonTrace.Schema.Binding
import CommonTrace.Schema.Block
import CommonTrace.Schema.Visibility

/-!
# Metadata from its syntax tree

The byte order of the trace comes first, because types that declare none have it wherever they
stand.  Then the blocks are read, the clocks that integers refer to are looked up, the events are
bound to their streams, and at last the paths are checked.  The first fault in this order is
reported.
-/

namespace CommonTrace

open Tsdl

/-- The byte order of a trace that a keyword names. -/
def ByteOrder.ofTraceKeyword (keyword : String) : Except SchemaError ByteOrder :=
  match keyword with
  | "le" | "little" => .ok .little
  | "be" | "big" | "network" => .ok .big
  | keyword => invalid (.traceByteOrder keyword)

/-- The byte order that the first of some assignments to declare one gives. -/
def firstByteOrder? : List Node → Except SchemaError (Option ByteOrder)
  | [] => .ok none
  | node :: rest => do
    let a ← Assignment.ofNode node
    if a.key = "byte_order" then return some (← ByteOrder.ofTraceKeyword (← a.string))
    else firstByteOrder? rest

/-- The byte order that the block of the trace declares. -/
def traceByteOrder? (root : Node) : Except SchemaError (Option ByteOrder) :=
  match root.child? .trace with
  | some trace => firstByteOrder? (trace.childrenOf .ctfExpressionVal)
  | none => .ok none

def checkClocks (declared : Dictionary String Clock) (references : List String) :
    Except SchemaError Unit :=
  match references.find? fun name => !declared.contains name with
  | some name => .error (.unknownClock name)
  | none => .ok ()

def Metadata.ofBlocks (byteOrder : ByteOrder) (blocks : Blocks)
    (streams : Dictionary Nat StreamSchema) (warnings : List Warning) : Metadata :=
  let trace := blocks.trace.getD .empty
  { major := trace.major
    minor := trace.minor
    uuid := trace.uuid
    byteOrder
    packetHeader := trace.packetHeader
    streams
    clocks := blocks.clocks
    env := blocks.env
    warnings }

/-- The metadata that a syntax tree describes. -/
def Metadata.ofTree (root : Node) : Except SchemaError Metadata := do
  if root.kind ≠ .root then malformed .rootExpected
  let declared ← traceByteOrder? root
  let byteOrder := declared.getD .little
  let assumed := if declared.isSome then [] else [.byteOrderMissing]
  let build := TypeM.buildSpecifiers (root.weight + 1)
  let ((blocks, passedOver), table) ←
    ((BlockM.readAll (TypeM.resolveNamed build) build root).run assumed).run (.empty byteOrder)
  checkClocks blocks.clocks table.clocks.toList
  let streams ← bindEvents blocks.streams blocks.events
  let metadata := Metadata.ofBlocks byteOrder blocks streams (passedOver ++ table.warnings.toList)
  metadata.checkPaths
  return metadata

end CommonTrace
