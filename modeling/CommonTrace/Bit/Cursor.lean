import CommonTrace.Bit.ByteOrder
import CommonTrace.Numeric.Width

/-!
# Reading bits

A `Cursor` stands at a bit of a byte region and hands out what follows: integers of one to
sixty-four bits that start anywhere, runs of whole bytes, and zero-terminated strings.  Bits at or
past the cursor's limit cannot be read.

Bit `p` of the region lies in byte `p / 8`.  A little endian integer takes the bits of its bytes from
the low end on and has its own low bits first; a big endian integer takes them from the high end on and
has its own high bits first.  An integer that consists of whole bytes is put together byte by byte; any
other one is gathered from the bytes that its bits touch, of each as many bits as belong to it.  Either
way sixty-four bits are at hand for the result, as in a machine word, and what is shifted out of them is
lost.

A failed read yields no new cursor, so the reader goes on from the old one.

## Main definitions

* `Cursor.readUnsigned`, `Cursor.readSigned`: one integer.
* `Cursor.readBytes`, `Cursor.readZeroTerminated`: whole bytes.
* `Cursor.align`, `Cursor.seek`: moving without reading.
* `signExtend`: the low bits of a number as two's complement.
-/

namespace CommonTrace

/-- Why a cursor could not do what it was asked to do.  An underflow asks for more bits than remain
before the limit.  Where `requested` is missing, it asks for more than a machine word counts; then
there is nobody to report it to, as the program has stopped at the multiplication. -/
inductive ReadError where
  | underflow (position : Nat) (requested : Option Nat) (remaining : Nat)
  | unaligned (position : Nat)
  | invalidWidth (width : Nat)
deriving DecidableEq, Repr

/-- Whether the program stops at the error and does not go on to report it. -/
def ReadError.stops : ReadError → Bool
  | .underflow _ requested _ => requested.isNone
  | .unaligned _ | .invalidWidth _ => false

/-- The text that reports the error, or with which the program stops. -/
def ReadError.message : ReadError → String
  | .underflow position (some requested) remaining =>
    s!"Cursor underflow at bit {position}: requested {requested} bits, {remaining} remaining"
  | .underflow _ none _ => "attempt to multiply with overflow"
  | .unaligned position => s!"Unaligned byte read at bit {position}"
  | .invalidWidth width => s!"Invalid integer width: {width}"

/-- The low `width` bits of `raw` as a two's complement integer.  Sixty-four bits are taken when
`width` is no width of an integer field. -/
def signExtend (raw width : Nat) : Int :=
  if width = 0 ∨ 64 ≤ width then Int.bmod raw (twoPow 64) else Int.bmod raw (twoPow width)

/-- A position in a byte region, and the end of the part of the region that may be read.  Both
count bits from the start of the region; the position is that of the bit that is read next. -/
structure Cursor where
  data : ByteArray
  limit : Nat
  position : Nat
  limit_le : limit ≤ 8 * data.size
  position_le : position ≤ limit

namespace Cursor

/-- A cursor at the start of a region, all of which may be read. -/
def ofBytes (data : ByteArray) : Cursor where
  data
  limit := 8 * data.size
  position := 0
  limit_le := Nat.le_refl _
  position_le := Nat.zero_le _

/-- A cursor at the start of a region of which the first `bits` bits may be read, or the whole
region if it is shorter. -/
def ofPrefix (data : ByteArray) (bits : Nat) : Cursor where
  data
  limit := min bits (8 * data.size)
  position := 0
  limit_le := Nat.min_le_right _ _
  position_le := Nat.zero_le _

def remaining (c : Cursor) : Nat :=
  c.limit - c.position

/-- Whether `bits` more bits can be read.  Of an empty region nothing can be read, not even zero
bits. -/
def canRead (c : Cursor) (bits : Nat) : Bool :=
  c.data.size ≠ 0 && bits ≤ c.remaining

def advance (c : Cursor) (bits : Nat) (h : bits ≤ c.remaining) : Cursor where
  data := c.data
  limit := c.limit
  position := c.position + bits
  limit_le := c.limit_le
  position_le := by have := c.position_le; simp only [remaining] at h; omega

@[simp] theorem data_advance (c : Cursor) (bits : Nat) (h : bits ≤ c.remaining) :
    (c.advance bits h).data = c.data := rfl

@[simp] theorem limit_advance (c : Cursor) (bits : Nat) (h : bits ≤ c.remaining) :
    (c.advance bits h).limit = c.limit := rfl

@[simp] theorem position_advance (c : Cursor) (bits : Nat) (h : bits ≤ c.remaining) :
    (c.advance bits h).position = c.position + bits := rfl

/-- The number of bits of `count` bytes, if a machine word counts them. -/
def bitsOfBytes? (count : Nat) : Option Nat :=
  if 8 * count < twoPow 64 then some (8 * count) else none

/-- Steps over `bits` bits, or fails if fewer remain.  The failure says that `requested` were asked
for. -/
def skip (c : Cursor) (bits : Nat) (requested : Option Nat := some bits) : Except ReadError Cursor :=
  if h : bits ≤ c.remaining then .ok (c.advance bits h)
  else .error (.underflow c.position requested c.remaining)

/-! ## Integers -/

def bytesBetween (data : ByteArray) (start stop : Nat) : List UInt8 :=
  (data.extract start stop).data.toList

/-- A byte whose lowest `bits` bits are set, and no others. -/
def lowMask (bits : Nat) : BitVec 8 :=
  if 8 ≤ bits then 0xFF#8 else (1#8 <<< bits) - 1#8

/-- The `take` bits of a byte that follow its `behind` lowest ones. -/
def chunk (byte : UInt8) (behind take : Nat) : BitVec 64 :=
  ((byte.toBitVec >>> behind) &&& lowMask take).setWidth 64

def wholeBytes (order : ByteOrder) (bytes : List UInt8) : BitVec 64 :=
  match order with
  | .big => bytes.foldl (fun value byte => (value <<< 8) ||| byte.toBitVec.setWidth 64) 0#64
  | .little => bytes.foldr (fun byte value => (value <<< 8) ||| byte.toBitVec.setWidth 64) 0#64

/-- Gathers `left` bits of a little endian number.  They start `offset` bits above the low end of the
first byte, and are put on top of the `shift` bits that `value` already has. -/
def gatherLittle (value : BitVec 64) (shift offset left : Nat) : List UInt8 → BitVec 64
  | [] => value
  | byte :: bytes =>
    let take := min left (8 - offset)
    gatherLittle (value ||| (chunk byte offset take <<< shift)) (shift + take) 0 (left - take) bytes

/-- Gathers `left` bits of a big endian number.  They start `offset` bits below the high end of the
first byte, and are put below those that `value` already has. -/
def gatherBig (value : BitVec 64) (offset left : Nat) : List UInt8 → BitVec 64
  | [] => value
  | byte :: bytes =>
    let take := min left (8 - offset)
    gatherBig ((value <<< take) ||| chunk byte (8 - offset - take) take) 0 (left - take) bytes

/-- The integer in the `width` bits from bit `position` on. -/
def wordAt (data : ByteArray) (position width : Nat) (order : ByteOrder) : BitVec 64 :=
  let bytes := bytesBetween data (position / 8) ((position + width + 7) / 8)
  if position % 8 = 0 ∧ width % 8 = 0 then wholeBytes order bytes
  else
    match order with
    | .big => gatherBig 0#64 (position % 8) width bytes
    | .little => gatherLittle 0#64 0 (position % 8) width bytes

def readUnsigned (c : Cursor) (width : Nat) (order : ByteOrder) : Except ReadError (Nat × Cursor) :=
  if width = 0 ∨ 64 < width then .error (.invalidWidth width)
  else do
    let next ← c.skip width
    return ((wordAt c.data c.position width order).toNat, next)

/-- The word in which the top one of the low `width` bits of `raw` is repeated above them. -/
def repeatSign (raw : BitVec 64) (width : Nat) : BitVec 64 :=
  if width = 0 ∨ 64 ≤ width then raw else (raw <<< (64 - width)).sshiftRight (64 - width)

def readSigned (c : Cursor) (width : Nat) (order : ByteOrder) :
    Except ReadError (Int × Cursor) := do
  let (raw, next) ← c.readUnsigned width order
  return ((repeatSign (BitVec.ofNat 64 raw) width).toInt, next)

/-! ## Whole bytes -/

/-- Reads `count` bytes.  The cursor has to stand at the start of a byte.  No region is so large that
a word does not count its bits, so the multiplication can overflow only where too few remain. -/
def readBytes (c : Cursor) (count : Nat) : Except ReadError (List UInt8 × Cursor) :=
  if c.position % 8 ≠ 0 then .error (.unaligned c.position)
  else do
    let next ← c.skip (8 * count) (bitsOfBytes? count)
    let start := c.position / 8
    return (bytesBetween c.data start (start + count), next)

/-- The number of bytes from byte `start` on that come before the first zero byte, looking at no
more than `count` bytes. -/
def runLength? (data : ByteArray) (start : Nat) : Nat → Option Nat
  | 0 => none
  | count + 1 =>
    match data[start]? with
    | none => none
    | some byte => if byte = 0 then some 0 else (runLength? data (start + 1) count).map (· + 1)

/-- Reads the bytes up to the next zero byte and steps over that byte, which is not part of the
result.  The cursor has to stand at the start of a byte, and the zero byte has to lie before the
limit. -/
def readZeroTerminated (c : Cursor) : Except ReadError (List UInt8 × Cursor) :=
  if c.position % 8 ≠ 0 then .error (.unaligned c.position)
  else
    let start := c.position / 8
    let available := c.limit / 8 - start
    match runLength? c.data start available with
    | none => .error (.underflow c.position (some (8 * (available + 1))) c.remaining)
    | some count => do
      let next ← c.skip (8 * (count + 1))
      return (bytesBetween c.data start (start + count), next)

/-! ## Moving -/

/-- Steps over the padding before the next multiple of `alignment` bits. -/
def align (c : Cursor) (alignment : Nat) : Except ReadError Cursor :=
  if alignment ≤ 1 ∨ c.position % alignment = 0 then .ok c
  else c.skip (alignment - c.position % alignment)

/-- Moves to the given bit, which may be the limit but not lie behind it. -/
def seek (c : Cursor) (position : Nat) : Except ReadError Cursor :=
  if h : position ≤ c.limit then .ok { c with position, position_le := h }
  else .error (.underflow c.position (some (position - c.position)) c.remaining)

end Cursor

end CommonTrace
