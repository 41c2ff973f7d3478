/-!
# Reading UTF-8 text

`Utf8.decode` turns any list of bytes into text.  Well-formed sequences give their characters.  In
place of an ill-formed one stands the replacement character, once for each longest run of bytes that
begins some well-formed sequence, and once for each byte that begins none.

The decoder is a machine that reads one byte at a time.  Between characters it is at rest; inside a
character it knows the bits read so far, how many bytes are still to come, and which bytes may come
next.  The range of the byte after the first one is what keeps out overlong forms, surrogates and
numbers beyond the last character; all later bytes range over `0x80` to `0xBF`.
-/

namespace CommonTrace.Utf8

/-- What stands in the text for bytes that are no character. -/
def replacement : Char := '\uFFFD'

/-- A character of which some bytes have been read: its bits so far, the number of bytes to come
after the next one, and the bounds of that byte. -/
structure Unfinished where
  bits : Nat
  more : Nat
  low : Nat
  high : Nat
deriving DecidableEq, Repr

/-- What the first byte of a character says about it: it is a character by itself, or more bytes
follow, or no character starts with it. -/
inductive Lead where
  | single (c : Char)
  | opening (p : Unfinished)
  | invalid

/-- The meaning of a byte that is read between characters. -/
def lead (byte : Nat) : Lead :=
  if byte < 0x80 then .single (Char.ofNat byte)
  else if byte < 0xC2 then .invalid
  else if byte < 0xE0 then .opening ⟨byte - 0xC0, 0, 0x80, 0xBF⟩
  else if byte < 0xF0 then
    .opening
      ⟨byte - 0xE0, 1, if byte = 0xE0 then 0xA0 else 0x80, if byte = 0xED then 0x9F else 0xBF⟩
  else if byte < 0xF5 then
    .opening
      ⟨byte - 0xF0, 2, if byte = 0xF0 then 0x90 else 0x80, if byte = 0xF4 then 0x8F else 0xBF⟩
  else .invalid

/-- The characters that become known with one more byte, and the state of the decoder behind it. -/
def step (state : Option Unfinished) (byte : UInt8) : List Char × Option Unfinished :=
  let start (before : List Char) : List Char × Option Unfinished :=
    match lead byte.toNat with
    | .single c => (before ++ [c], none)
    | .opening p => (before, some p)
    | .invalid => (before ++ [replacement], none)
  match state with
  | none => start []
  | some p =>
    if p.low ≤ byte.toNat ∧ byte.toNat ≤ p.high then
      let bits := p.bits * 64 + (byte.toNat - 0x80)
      match p.more with
      | 0 => ([Char.ofNat bits], none)
      | more + 1 => ([], some ⟨bits, more, 0x80, 0xBF⟩)
    else start [replacement]

/-- The text so far and the state of the decoder after more bytes. -/
def feed (text : String) (state : Option Unfinished) (bytes : List UInt8) :
    String × Option Unfinished :=
  bytes.foldl
    (fun (text, state) byte =>
      let (chars, next) := step state byte
      (chars.foldl String.push text, next))
    (text, state)

/-- The text of a list of bytes, with the replacement character in place of what is not UTF-8. -/
def decode (bytes : List UInt8) : String :=
  let (text, state) := feed "" none bytes
  if state.isSome then text.push replacement else text

end CommonTrace.Utf8
