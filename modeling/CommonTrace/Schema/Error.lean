import CommonTrace.Name.FieldPath
import CommonTrace.Tsdl.Tree

/-!
# What can be wrong with metadata

A `SchemaError` ends the reading of metadata, a `Warning` does not.  Errors are told apart by their
cause: a tree that does not have the form of the grammar (`Malformed`), a declaration that says
something impossible (`Invalid`), a name that is declared twice (`Repeated`), or a name that leads
nowhere.
-/

namespace CommonTrace

open Tsdl (NodeKind)

/-- Where a block stands among the declarations: in the stream with the given key, or in an event
of it. -/
structure BlockPlace where
  stream : Nat
  event : Option String
  block : StaticScope
deriving DecidableEq, Repr

def BlockPlace.toText (place : BlockPlace) : String :=
  match place.event with
  | none => s!"stream {place.stream} {place.block.path}"
  | some event => s!"stream {place.stream} event '{event}' {place.block.path}"

/-- Where a syntax tree departs from the grammar. -/
inductive Malformed where
  | rootExpected
  | unexpectedTopLevel (kind : NodeKind)
  | leftSideMissing
  | rightSideMissing
  | stringExpected (kind : NodeKind)
  | nameEmpty
  | notANumber (text : String)
  | aliasTargetMissing
  | aliasMissing
  | aliasTargetTypeMissing
  | aliasNameMissing
  | typedefTypeMissing
  | typedefNamesMissing
  | declarationTypeMissing
  | specifierEmpty
  | unexpectedSpecifier (kind : NodeKind)
  | typeNameEmpty
  | enumNameMissing
  | containerTypeMissing
  | singleNumberExpected
  | twoBoundsExpected
  | structNameMissing
  | variantNameMissing
  | fieldTypeMissing
  | fieldNameMissing
  | identifierMissing
  | lengthEmpty
deriving DecidableEq, Repr

def Malformed.message : Malformed → String
  | .rootExpected => "metadata tree must start at its root"
  | .unexpectedTopLevel kind => s!"unexpected top-level node {kind.name}"
  | .leftSideMissing => "assignment without left-hand side"
  | .rightSideMissing => "assignment without right-hand side"
  | .stringExpected kind => s!"expected a string, found {kind.name}"
  | .nameEmpty => "empty name"
  | .notANumber text => s!"invalid number '{text}'"
  | .aliasTargetMissing => "typealias without target"
  | .aliasMissing => "typealias without alias"
  | .aliasTargetTypeMissing => "typealias target without type"
  | .aliasNameMissing => "typealias alias without name"
  | .typedefTypeMissing => "typedef without type"
  | .typedefNamesMissing => "typedef without names"
  | .declarationTypeMissing => "declaration without type"
  | .specifierEmpty => "empty type specifier"
  | .unexpectedSpecifier kind => s!"unexpected type specifier {kind.name}"
  | .typeNameEmpty => "type name without words"
  | .enumNameMissing => "enum without name or body"
  | .containerTypeMissing => "enum container without type"
  | .singleNumberExpected => "expected a single number"
  | .twoBoundsExpected => "enum range needs two bounds"
  | .structNameMissing => "struct without name or body"
  | .variantNameMissing => "variant without name or body"
  | .fieldTypeMissing => "field without type"
  | .fieldNameMissing => "field without name"
  | .identifierMissing => "declarator without identifier"
  | .lengthEmpty => "empty length"

/-- What the value of an attribute has to be. -/
inductive Expected where
  | string
  | number
  | unsigned
  | signed
  | boolean
  | type
deriving DecidableEq, Repr

def Expected.message : Expected → String
  | .string => "a string"
  | .number => "a number"
  | .unsigned => "an unsigned number"
  | .signed => "a 64-bit number"
  | .boolean => "a boolean"
  | .type => "a type"

/-- Why a declaration makes no sense. -/
inductive Invalid where
  | attribute (key : String) (expected : Expected)
  | integerSizeMissing
  | integerSize (width : Nat)
  | byteOrder (keyword : String)
  | alignment (value : Int)
  | base (value : Int)
  | baseKeyword (keyword : String)
  | encoding (keyword : String)
  | clockMap (text : String)
  | floatDigitsMissing
  | floatLayout (exponent mantissa : Nat)
  | enumContainer (kind : String)
  | labelRange (label : String) (low high : Int)
  | structAlignment (value : Int)
  | variantTag (text : String)
  | variantEmpty
  | variantFieldUntagged (name : String)
  | pointer
  | negativeLength (value : Int)
  | sequenceLength (text : String)
  | traceByteOrder (keyword : String)
  | uuid (text : String)
  | blockNotStruct (key kind : String)
  | eventNameMissing
  | clockFrequencyZero
  | clockNameMissing
  | streamIdMissing
  | eventStreamMissing (event : String)
  | eventStreamUnknown (event : String) (stream : Nat)
  | eventIdMissing (event : String) (stream : Nat)
  | variantUntagged (place : BlockPlace)
  | elementsWithoutBits (kind : String) (place : BlockPlace)
  | eventWithoutBits (event : String) (stream : Nat)
deriving DecidableEq, Repr

def Invalid.message : Invalid → String
  | .attribute key expected => s!"attribute '{key}' must be {expected.message}"
  | .integerSizeMissing => "integer without size"
  | .integerSize width => s!"integer size {width} outside 1..=64"
  | .byteOrder keyword => s!"invalid byte_order '{keyword}'"
  | .alignment value => s!"align = {value} is not a power of two"
  | .base value => s!"invalid base {value}"
  | .baseKeyword keyword => s!"invalid base '{keyword}'"
  | .encoding keyword => s!"invalid encoding '{keyword}'"
  | .clockMap text => s!"unsupported map '{text}'"
  | .floatDigitsMissing => "floating_point needs exp_dig and mant_dig"
  | .floatLayout exponent mantissa =>
    s!"unsupported floating_point layout exp_dig={exponent} mant_dig={mantissa}"
  | .enumContainer kind => s!"enum container must be an integer, found {kind}"
  | .labelRange label low high =>
    s!"enum label '{label}' range {low}..={high} does not fit its container"
  | .structAlignment value => s!"struct align({value}) is not a power of two"
  | .variantTag text => s!"invalid variant tag '{text}'"
  | .variantEmpty => "variant without alternatives"
  | .variantFieldUntagged name => s!"variant field '{name}' has no tag"
  | .pointer => "pointers are not supported"
  | .negativeLength value => s!"negative array length {value}"
  | .sequenceLength text => s!"invalid sequence length '{text}'"
  | .traceByteOrder keyword => s!"trace byte_order must be le or be, found '{keyword}'"
  | .uuid text => s!"invalid uuid '{text}'"
  | .blockNotStruct key kind => s!"'{key}' must be a struct, found {kind}"
  | .eventNameMissing => "event without name"
  | .clockFrequencyZero => "clock freq must not be zero"
  | .clockNameMissing => "clock without name"
  | .streamIdMissing => "stream without id in a multi-stream trace"
  | .eventStreamMissing event => s!"event '{event}' has no stream_id"
  | .eventStreamUnknown event stream => s!"event '{event}' names unknown stream {stream}"
  | .eventIdMissing event stream =>
    s!"event '{event}' in stream {stream}: events may omit their id only when alone in a stream"
  | .variantUntagged place => s!"untagged variant in {place.toText}"
  | .elementsWithoutBits kind place => s!"array of zero-bit {kind} elements in {place.toText}"
  | .eventWithoutBits event stream => s!"event '{event}' of stream {stream} occupies no bits"

/-- What is declared twice; the members are those of a compound type, which is called `owner`. -/
inductive Repeated where
  | type (name : String)
  | member (owner name : String)
  | traceBlock
  | clock (name : String)
  | stream (key : Nat)
  | eventId (id stream : Nat)
  | anonymousEvent (stream : Nat)
deriving DecidableEq, Repr

def Repeated.message : Repeated → String
  | .type name => s!"type {name}"
  | .member owner name => s!"{owner} member {name}"
  | .traceBlock => "trace block"
  | .clock name => s!"clock {name}"
  | .stream key => s!"stream {key}"
  | .eventId id key => s!"event id {id} in stream {key}"
  | .anonymousEvent key => s!"event without id in stream {key}"

/-- Why metadata is rejected.  A recursive type is made of itself.  An unresolved path, of a
length or a tag, leads to no field that can be one.  A chain is too long if types refer to each
other more often than the metadata allows for. -/
inductive SchemaError where
  | unknownType (name : String)
  | recursiveType (name : String)
  | invalid (fault : Invalid)
  | repeated (what : Repeated)
  | unknownClock (name : String)
  | unresolvedPath (path : FieldPath) (place : BlockPlace)
  | malformed (fault : Malformed)
  | chainTooLong
deriving DecidableEq, Repr

def SchemaError.message : SchemaError → String
  | .unknownType name => s!"Unknown type reference: {name}"
  | .recursiveType name => s!"Type refers to itself: {name}"
  | .invalid fault => s!"Invalid declaration: {fault.message}"
  | .repeated what => s!"Duplicate definition: {what.message}"
  | .unknownClock name => s!"Unknown clock: {name}"
  | .unresolvedPath path place => s!"Unresolved field path '{path.toText}' in {place.toText}"
  | .malformed fault => s!"Malformed syntax tree: {fault.message}"
  | .chainTooLong => "Chain of type references too long"

/-- What is passed over while metadata is read: an attribute without meaning, a byte order that is
not declared and taken to be little endian, a major version that is not the one described here,
and call sites. -/
inductive Warning where
  | attribute (owner key : String)
  | byteOrderMissing
  | majorVersion (major : Nat)
  | callsite
deriving DecidableEq, Repr

def Warning.message : Warning → String
  | .attribute owner key => s!"Unsupported attribute ignored: {owner}.{key}"
  | .byteOrderMissing => "trace declares no byte_order, assuming little endian"
  | .majorVersion major => s!"unexpected CTF major version Some({major})"
  | .callsite => "callsite blocks are ignored"

end CommonTrace
