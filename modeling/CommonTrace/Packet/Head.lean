import CommonTrace.Packet.Basic

/-!
# Packet headers and contexts

What stands before the events of a packet is decoded in two blocks.  The header comes first: it is
checked, and it selects the stream whose context follows.
-/

namespace CommonTrace

/-- The number at the start of every packet. -/
def streamPacketMagic : Nat := 0xC1FC1FC1

/-- The decoded header and context of a packet: the stream that the header selects, the fields of
both blocks, the scope of the context if the stream has one, and the number of bits of both. -/
structure PacketHead where
  stream : StreamSchema
  scopes : Arena
  context : Option ScopeId
  size : Nat

namespace PacketHead

def decodeDeclared (limit : Nat) (block : StaticScope) (t : Option FieldType) :
    DecodeM (Option ScopeId) :=
  match t with
  | some t => some <$> t.decodeBlock limit block
  | none => return none

def run {α : Type} (step : DecodeM α) (state : DecodeState) :
    Except FormatError (α × DecodeState) :=
  match step state with
  | .ok a state => .ok (a, state)
  | .error error _ => .error (.decode error)

/-- The bytes of an identifier that is kept as sixteen integers. -/
def uuidOf? (f : Field) : Option Uuid := do
  let elements ← f.elements?
  let numbers ← elements.mapM Field.unsigned?
  if numbers.length = 16 ∧ numbers.all (· < 256) then some ⟨numbers.map UInt8.ofNat⟩ else none

def fieldIn? (scopes : Arena) (block : Option ScopeId) (name : String) : Option Field :=
  block.bind fun scope => scopes.field? scope name

def checkMagic (options : ReadOptions) (magic : Option Nat) : Except FormatError Unit :=
  match magic with
  | some magic =>
    if options.checkMagic && magic != streamPacketMagic then .error (.badMagic magic) else .ok ()
  | none => .ok ()

def checkUuid (options : ReadOptions) (found expected : Option Uuid) : Except FormatError Unit :=
  match found, expected with
  | some found, some expected =>
    if options.checkUuid && found != expected then .error .uuidMismatch else .ok ()
  | _, _ => .ok ()

/-- The stream that a header selects, once the header has been checked. -/
def selectStream (metadata : Metadata) (options : ReadOptions) (scopes : Arena)
    (header : Option ScopeId) : Except FormatError StreamSchema := do
  checkMagic options ((fieldIn? scopes header "magic").bind Field.unsigned?)
  checkUuid options ((fieldIn? scopes header "uuid").bind uuidOf?) metadata.uuid
  let streamId := (fieldIn? scopes header "stream_id").bind Field.unsigned?
  match metadata.stream? streamId with
  | none => .error (.unknownStream (streamId.getD 0))
  | some stream => return stream

/-- Decodes and checks what stands before the events of the packet at the start of `data`. -/
def ofBytes (metadata : Metadata) (options : ReadOptions) (data : ByteArray) :
    Except FormatError PacketHead := do
  let start : DecodeState := { cursor := .ofBytes data, scopes := .empty }
  let (header, state) ← run
    (decodeDeclared options.lengthLimit .tracePacketHeader metadata.packetHeader) start
  let stream ← selectStream metadata options state.scopes.arena header
  let (context, state) ← run
    (decodeDeclared options.lengthLimit .streamPacketContext stream.packetContext) state
  return { stream, scopes := state.scopes.arena, context, size := state.cursor.position }

def field? (head : PacketHead) (name : String) : Option Field :=
  fieldIn? head.scopes head.context name

def number? (head : PacketHead) (name : String) : Option Nat :=
  (head.field? name).bind Field.unsigned?

/-- The sizes of content and packet in bits.  Where the context gives one of them both are that;
where it gives none the packet extends to the end of the file, over `available` bytes. -/
def sizes (head : PacketHead) (available : Nat) : Nat × Nat :=
  match head.number? "content_size", head.number? "packet_size" with
  | some content, some packet => (content, packet)
  | some content, none => (content, content)
  | none, some packet => (packet, packet)
  | none, none => (available * 8, available * 8)

def clock? (head : PacketHead) : Option String :=
  (head.field? "timestamp_begin").bind fun f => f.type.clock?

def instant? (head : PacketHead) (metadata : Metadata) (name : String) : Option Instant :=
  (head.number? name).map fun cycles =>
    { cycles, nanoseconds := metadata.toNanoseconds head.clock? cycles }

end PacketHead

end CommonTrace
