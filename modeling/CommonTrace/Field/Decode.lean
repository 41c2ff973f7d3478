import CommonTrace.Field.Scope
import CommonTrace.Text.Utf8

/-!
# Decoding fields

`FieldType.decode` reads one value of a type at the cursor.  Before every value the cursor steps
over the padding up to the alignment of the type.  Structures open a scope and bind each field in it
before the next one is read, so a sequence length or a variant tag can refer to any field before it.

Decoding threads a state, the cursor and the scopes.  A failed decoding keeps the state it has
reached: the fields decoded so far stay visible, and the cursor shows how far the data was sound.

## Main definitions

* `FieldType.decode`: one value.
* `FieldType.decodeBlock`: all of a block, with its scope.
-/

namespace CommonTrace

/-! ## Errors -/

/-- Why a length or a tag could not be found: the type has no tag, or the path of a tag leads
nowhere or to neither an enumeration nor a string, or the path of a length leads nowhere or to no
natural number. -/
inductive PathFailure where
  | untagged (field : String)
  | tagMissing (path : FieldPath) (field : String)
  | tagUnlabelled (path : FieldPath) (field : String)
  | lengthMissing (path : FieldPath) (field : String)
  | lengthNotNatural (path : FieldPath) (field : String)
deriving DecidableEq, Repr

def PathFailure.message : PathFailure → String
  | .untagged field => s!"variant {field} has no tag"
  | .tagMissing path field => s!"{path.toText} (tag of {field})"
  | .tagUnlabelled path field => s!"{path.toText} (tag of {field}) is not an enumeration"
  | .lengthMissing path field => s!"{path.toText} (length of {field})"
  | .lengthNotNatural path field => s!"{path.toText} (length of {field}) is not an unsigned integer"

/-- Why data could not be decoded.  An event that takes no bits makes no progress, as the next one
would start at the same bit. -/
inductive DecodeError where
  | read (error : ReadError)
  | path (failure : PathFailure)
  | unknownVariantTag (tag field : String)
  | lengthLimit (field : String) (length limit : Nat)
  | unknownEvent (stream : Nat) (id : Option Nat)
  | noProgress (position : Nat)
deriving DecidableEq, Repr

/-- Whether the program stops at the error and does not go on to report it. -/
def DecodeError.stops : DecodeError → Bool
  | .read error => error.stops
  | _ => false

def optionText : Option Nat → String
  | some n => s!"Some({n})"
  | none => "None"

def DecodeError.message : DecodeError → String
  | .read error => error.message
  | .path failure => s!"Cannot resolve field path: {failure.message}"
  | .unknownVariantTag tag field =>
    s!"Variant tag '{tag}' does not select any alternative of field {field}"
  | .lengthLimit field length limit => s!"Length {length} of field {field} exceeds limit {limit}"
  | .unknownEvent stream id => s!"Unknown event id {optionText id} in stream {stream}"
  | .noProgress position => s!"Event at bit {position} occupies no bits"

/-! ## The state of a decoding -/

/-- What a decoding reads from next, and the fields that it has decoded so far. -/
structure DecodeState where
  cursor : Cursor
  scopes : ScopeChain

abbrev DecodeM := EStateM DecodeError DecodeState

namespace DecodeM

def read {α : Type} (reading : Cursor → Except ReadError (α × Cursor)) : DecodeM α := fun s =>
  match reading s.cursor with
  | .ok (a, cursor) => .ok a { s with cursor }
  | .error error => .error (.read error) s

def align (alignment : Nat) : DecodeM Unit :=
  read fun cursor => (cursor.align alignment).map ((), ·)

def openChild (parent : ScopeId) (name : String) : DecodeM ScopeId := fun s =>
  let (id, arena) := s.scopes.arena.openChild parent name
  .ok id { s with scopes := { s.scopes with arena } }

def openBlock (block : StaticScope) : DecodeM ScopeId := fun s =>
  let (id, arena) := s.scopes.arena.openBlock block
  .ok id { s with scopes := { s.scopes with arena } }

def bindField (scope : ScopeId) (field : Field) : DecodeM Unit := fun s =>
  .ok () { s with scopes := { s.scopes with arena := s.scopes.arena.insert scope field } }

end DecodeM

/-! ## Parts of values -/

def IntegerType.read (t : IntegerType) : DecodeM IntegerValue := do
  let value ←
    if t.signed then DecodeM.read fun cursor => cursor.readSigned t.width t.order
    else Int.ofNat <$> DecodeM.read fun cursor => cursor.readUnsigned t.width t.order
  return { value, width := t.width, signed := t.signed }

def FloatType.read (t : FloatType) : DecodeM Binary64 :=
  t.value <$> DecodeM.read fun cursor => cursor.readUnsigned t.width t.order

def EnumType.read (t : EnumType) : DecodeM Value := do
  let n ← t.container.read
  return .enum n (t.labelOf? n.value)

def readString : DecodeM String :=
  Utf8.decode <$> DecodeM.read Cursor.readZeroTerminated

/-- The text of an array of characters: its bytes up to the first zero byte. -/
def textOfBytes (bytes : List UInt8) : String :=
  Utf8.decode (bytes.takeWhile (· ≠ 0))

def readText (length : Nat) : DecodeM String :=
  textOfBytes <$> DecodeM.read fun cursor => cursor.readBytes length

def checkLength (limit : Nat) (field : String) (length : Nat) : DecodeM Unit :=
  if limit < length then throw (.lengthLimit field length limit) else pure ()

/-- The number of elements of a sequence, found from the scope it is decoded in. -/
def sequenceLength (scope : ScopeId) (path : FieldPath) (field : String) : DecodeM Nat := do
  match (← get).scopes.resolve? scope path with
  | none => throw (.path (.lengthMissing path field))
  | some found =>
    match found.unsigned? with
    | none => throw (.path (.lengthNotNatural path field))
    | some length => return length

/-- The name of the alternative of a variant that its tag selects, found from the scope it is
decoded in: the label of an enumeration, or a string. -/
def selectedName (scope : ScopeId) (path : FieldPath) (field : String) : DecodeM String := do
  match (← get).scopes.resolve? scope path with
  | none => throw (.path (.tagMissing path field))
  | some found =>
    match found.value with
    | .enum _ (some label) => return label
    | .enum n none => throw (.unknownVariantTag (toString n.value) field)
    | .text text => return text
    | _ => throw (.path (.tagUnlabelled path field))

/-- Performs a step for each of the numbers from `index` on, `count` of them, and puts the results
behind those in `before`, which stand in reverse order. -/
def collectFrom {m : Type → Type} [Monad m] {α : Type} (step : Nat → m α) (index : Nat)
    (before : List α) : Nat → m (List α)
  | 0 => return before.reverse
  | count + 1 => do
    let a ← step index
    collectFrom step (index + 1) (a :: before) count

/-- Decodes elements, which are named by their index. -/
def collectElements {m : Type → Type} [Monad m] (count : Nat) (decodeElement : String → m Field) :
    m (List Field) :=
  collectFrom (fun index => decodeElement (toString index)) 0 [] count

/-! ## Values -/

namespace FieldType

/-- Steps over the padding before a value of a type, reads the value, and makes it a field. -/
def named (t : FieldType) (name : String) (value : DecodeM Value) : DecodeM Field := do
  DecodeM.align t.alignment
  let value ← value
  return { name, type := t, value }

mutual

/-- Decodes a value of a type, behind the padding before it.  At most `limit` elements may be in one
array or sequence.  The field of the value is to be called `name`, and its paths are resolved from
`scope`. -/
def decodeValue (limit : Nat) (t : FieldType) (scope : ScopeId) (name : String) : DecodeM Value :=
  match t with
  | .integer t => Value.integer <$> t.read
  | .float t => Value.float <$> t.read
  | .string _ => Value.text <$> readString
  | .enum t => t.read
  | .array element length => do
    checkLength limit name length
    if element.isCharacter then Value.text <$> readText length
    else
      Value.array <$> collectElements length fun index =>
        element.named index (decodeValue limit element scope index)
  | .sequence element path => do
    let length ← sequenceLength scope path name
    checkLength limit name length
    if element.isCharacter then Value.text <$> readText length
    else
      Value.sequence <$> collectElements length fun index =>
        element.named index (decodeValue limit element scope index)
  | .struct _ fields => do
    let inner ← DecodeM.openChild scope name
    decodeFields limit fields inner
    return .struct inner
  | .variant none _ => throw (.path (.untagged name))
  | .variant (some tag) alternatives => do
    let selection ← selectedName scope tag name
    Value.variant selection <$> decodeAlternative limit alternatives selection scope name
termination_by structural t

def decodeFields (limit : Nat) (fields : List (String × FieldType)) (scope : ScopeId) :
    DecodeM Unit :=
  match fields with
  | [] => pure ()
  | (name, t) :: rest => do
    let field ← t.named name (decodeValue limit t scope name)
    DecodeM.bindField scope field
    decodeFields limit rest scope
termination_by structural fields

def decodeAlternative (limit : Nat) (alternatives : List (String × FieldType)) (selection : String)
    (scope : ScopeId) (name : String) : DecodeM Field :=
  match alternatives with
  | [] => throw (.unknownVariantTag selection name)
  | (alternative, t) :: rest =>
    if alternative = selection then t.named selection (decodeValue limit t scope selection)
    else decodeAlternative limit rest selection scope name
termination_by structural alternatives

end

/-- Decodes one value, of which at most `limit` elements may be in one array or sequence.  Its name
is `name`, and its paths are resolved from `scope`. -/
def decode (limit : Nat) (t : FieldType) (scope : ScopeId) (name : String) : DecodeM Field :=
  t.named name (decodeValue limit t scope name)

/-- Decodes what a block holds into its scope.  The fields of a structure are bound in that scope; a
value of another type is its only field, named like the block. -/
def decodeContents (limit : Nat) (t : FieldType) (block : StaticScope) (scope : ScopeId) :
    DecodeM Unit :=
  match t with
  | .struct least fields => do
    DecodeM.align (FieldType.struct least fields).alignment
    decodeFields limit fields scope
  | t => do
    let field ← t.decode limit scope block.name
    DecodeM.bindField scope field

/-- Decodes a block into a scope of its own, which is returned. -/
def decodeBlock (limit : Nat) (t : FieldType) (block : StaticScope) : DecodeM ScopeId := do
  let scope ← DecodeM.openBlock block
  t.decodeContents limit block scope
  return scope

end FieldType

end CommonTrace
