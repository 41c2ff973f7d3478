import CommonTrace.Numeric.Numeral

/-!
# Universally unique identifiers

A `Uuid` is sixteen bytes.  Its text is thirty-two lower case hexadecimal digits in groups of eight,
four, four, four and twelve, joined by hyphens.

Reading takes digits of either case and four forms: the digits alone, the hyphenated form, the
hyphenated form in braces, and the hyphenated form after `urn:uuid:`, which may also be in letters
of either case.

This follows the documentation of the `uuid` library.  Its parser takes every form that the library
writes, which are these four, and an identifier is displayed in the hyphenated form in lower case.
-/

namespace CommonTrace

/-- A universally unique identifier, of sixteen bytes. -/
structure Uuid where
  bytes : List UInt8
deriving DecidableEq, Repr

namespace Uuid

/-- The bytes that pairs of hexadecimal digits spell. -/
def bytesOfHex? : List Char → Option (List UInt8)
  | [] => some []
  | [_] => none
  | high :: low :: rest => do
    let high ← Numeral.digit? 16 high
    let low ← Numeral.digit? 16 low
    let bytes ← bytesOfHex? rest
    return UInt8.ofNat (high * 16 + low) :: bytes

def ofDigits? (digits : List Char) : Option Uuid :=
  if digits.length = 32 then (bytesOfHex? digits).map Uuid.mk else none

/-- Reads the form with hyphens behind the eighth, twelfth, sixteenth and twentieth digit. -/
def ofHyphenated? (text : List Char) : Option Uuid :=
  let hyphens := [8, 13, 18, 23]
  if text.length = 36 ∧ hyphens.all (fun i => text[i]? == some '-') then
    let marked := text.zipIdx.filter fun (_, i) => !hyphens.contains i
    ofDigits? (marked.map Prod.fst)
  else none

/-- Reads any of the four forms. -/
def ofString? (text : String) : Option Uuid :=
  let chars := text.toList
  if chars.length = 32 then ofDigits? chars
  else if chars.length = 38 ∧ chars.head? = some '\x7b' ∧ chars.getLast? = some '\x7d' then
    ofHyphenated? (chars.drop 1).dropLast
  else if chars.length = 45 ∧ (chars.take 9).map Char.toLower = "urn:uuid:".toList then
    ofHyphenated? (chars.drop 9)
  else ofHyphenated? chars

def hexOfByte (byte : UInt8) : List Char :=
  [Nat.digitChar (byte.toNat / 16), Nat.digitChar (byte.toNat % 16)]

def toText (uuid : Uuid) : String :=
  let group (start count : Nat) :=
    String.ofList (((uuid.bytes.drop start).take count).flatMap hexOfByte)
  "-".intercalate [group 0 4, group 4 2, group 6 2, group 8 2, group 10 6]

end Uuid

end CommonTrace
