import CommonTrace.Bit.ByteOrder
import CommonTrace.Text.Utf8

/-!
# The text of a metadata file

A metadata file holds its text either as it is or cut into packets.  A packet starts with a header
of thirty-seven bytes: magic number, identifier of the trace, checksum, content size, packet size,
compression, encryption and checksum scheme, and the two version numbers.  Sizes count bits from the
start of the packet; the text of the packet ends with its content, and padding may follow up to the
packet size.

The magic number at the start of the file tells which form it has, and in which byte order the
headers are.  Texts are joined before they are read as UTF-8, so a character may be split between
two packets.
-/

namespace CommonTrace.Tsdl

/-- The number at the start of every packet. -/
def packetMagic : Nat := 0x75D11D57

def packetHeaderSize : Nat := 37

/-- What is wrong with a packet.  Text that is compressed or encrypted is not supported; sizes
are invalid if the content does not hold the header or the packet does not hold the content. -/
inductive PacketFault where
  | truncatedHeader
  | badMagic
  | encoded
  | invalidSizes
  | beyondFile
deriving DecidableEq, Repr

/-- A packet from which no text could be taken, by the byte at which it starts. -/
structure PacketError where
  offset : Nat
  fault : PacketFault
deriving DecidableEq, Repr

def PacketFault.message : PacketFault → String
  | .truncatedHeader => "truncated header"
  | .badMagic => "bad magic"
  | .encoded => "compressed or encrypted metadata is not supported"
  | .invalidSizes => "invalid content or packet size"
  | .beyondFile => "content extends beyond the file"

def PacketError.message (e : PacketError) : String :=
  s!"at byte {e.offset}: {e.fault.message}"

/-- The byte order of the packets of a file, or nothing if the file is plain text. -/
def packetByteOrder? (bytes : List UInt8) : Option ByteOrder :=
  let magic := bytes.take 4
  if magic.length < 4 then none
  else if ByteOrder.little.value magic = packetMagic then some .little
  else if ByteOrder.big.value magic = packetMagic then some .big
  else none

/-- The number in the `count` bytes that start `offset` bytes behind the start of a header. -/
def headerNumber (order : ByteOrder) (bytes : List UInt8) (offset count : Nat) : Nat :=
  order.value ((bytes.drop offset).take count)

/-- The text of the packet at the start of `bytes`, and the bytes behind the packet. -/
def takePacket (order : ByteOrder) (bytes : List UInt8) :
    Except PacketFault (List UInt8 × List UInt8) :=
  let number := headerNumber order bytes
  let content := number 24 4 / 8
  let packet := number 28 4 / 8
  if bytes.length < packetHeaderSize then .error .truncatedHeader
  else if number 0 4 ≠ packetMagic then .error .badMagic
  else if number 32 1 ≠ 0 ∨ number 33 1 ≠ 0 then .error .encoded
  else if content < packetHeaderSize ∨ packet < content then .error .invalidSizes
  else if bytes.length < content then .error .beyondFile
  else .ok ((bytes.take content).drop packetHeaderSize, bytes.drop packet)

/-- The joined texts of the packets of a file from byte `offset` on, at most `count` of them. -/
def joinPackets (order : ByteOrder) (offset : Nat) (bytes : List UInt8) :
    Nat → Except PacketError (List UInt8)
  | 0 => .ok []
  | count + 1 =>
    if bytes.isEmpty then .ok []
    else
      match takePacket order bytes with
      | .error fault => .error ⟨offset, fault⟩
      | .ok (text, rest) => do
        let texts ← joinPackets order (offset + (bytes.length - rest.length)) rest count
        return text ++ texts

/-- The text of a metadata file.  A packet is longer than its header, so there are no more packets
than bytes. -/
def metadataText (bytes : List UInt8) : Except PacketError String :=
  match packetByteOrder? bytes with
  | none => .ok (Utf8.decode bytes)
  | some order => Utf8.decode <$> joinPackets order 0 bytes bytes.length

end CommonTrace.Tsdl
