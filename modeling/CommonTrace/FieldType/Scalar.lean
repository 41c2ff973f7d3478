import CommonTrace.Bit.ByteOrder
import CommonTrace.Numeric.Binary64

/-!
# Scalar field types

Integers, floating point numbers and enumerations: the types whose values are read as one integer of
a fixed number of bits.

A floating point type may divide its bits into exponent and mantissa in any way.  The single and
double precision formats are read as they stand.  For all others the value is composed in double
precision, one rounded step after the other: the fraction, then one plus the fraction, then the
power of two, then the product of the two.  The exponent of that power is kept in thirty-two bits of
two's complement.  Where they are not enough for the least exponent, its subtraction overflows
(`FloatType.overflows`): arithmetic that is checked stops the program there, any other wraps around.
-/

namespace CommonTrace

/-- How the characters of a text are encoded; integers without an encoding are numbers and no
characters. -/
inductive Encoding where
  | none
  | utf8
  | ascii
deriving DecidableEq, Repr

/-- The encoding that a metadata keyword names, in letters of either case. -/
def Encoding.ofKeyword? (keyword : String) : Option Encoding :=
  match keyword.toLower with
  | "none" => some .none
  | "utf8" | "utf-8" => some .utf8
  | "ascii" => some .ascii
  | _ => Option.none

/-- The alignment of a number of `width` bits for which none is declared: whole bytes start at a
byte, other numbers anywhere. -/
def defaultAlignment (width : Nat) : Nat :=
  if width % 8 = 0 then 8 else 1

/-! ## Integers -/

/-- A type of integers, of `width` bits that are two's complement if the type is `signed`.  Values
are best shown in the base, which is 2, 8, 10 or 16, and may be cycles of the clock. -/
structure IntegerType where
  width : Nat
  signed : Bool
  order : ByteOrder
  alignment : Nat
  base : Nat
  encoding : Encoding
  clock : Option String
deriving DecidableEq, Repr

namespace IntegerType

/-- A type for which only width, sign and byte order are declared. -/
def plain (width : Nat) (signed : Bool) (order : ByteOrder) : IntegerType :=
  { width, signed, order, alignment := defaultAlignment width, base := 10, encoding := .none,
    clock := none }

/-- Whether an array of such integers is a text. -/
def isCharacter (t : IntegerType) : Bool :=
  t.encoding ≠ .none && t.width = 8 && t.alignment % 8 = 0

def minimum (t : IntegerType) : Int :=
  if t.signed then -twoPow (t.width - 1) else 0

def maximum (t : IntegerType) : Int :=
  if t.signed then twoPow (t.width - 1) - 1 else twoPow t.width - 1

end IntegerType

/-! ## Floating point numbers -/

/-- A type of floating point numbers.  The mantissa is the number of significant bits: the leading
one is among them, and the sign is stored in its place. -/
structure FloatType where
  exponent : Nat
  mantissa : Nat
  order : ByteOrder
  alignment : Nat
deriving DecidableEq, Repr

namespace FloatType

def width (t : FloatType) : Nat :=
  t.exponent + t.mantissa

def fractionWidth (t : FloatType) : Nat :=
  t.mantissa - 1

def exponentField (t : FloatType) (raw : Nat) : Nat :=
  raw / twoPow t.fractionWidth % twoPow t.exponent

def fractionField (t : FloatType) (raw : Nat) : Nat :=
  raw % twoPow t.fractionWidth

/-- The exponent field of the number one. -/
def bias (t : FloatType) : Int :=
  twoPow (t.exponent - 1) - 1

/-- The low thirty-two bits of an integer in two's complement. -/
def narrow (n : Int) : Int :=
  Int.bmod n (twoPow 32)

/-- Whether the exponent of the power of two overflows while the value of a word is composed. -/
def overflows (t : FloatType) (raw : Nat) : Bool :=
  t.exponentField raw = 0 && !decide (FitsSigned 32 (1 - narrow t.bias - t.fractionWidth))

/-- The value of a word, composed from its fields. -/
def compose (t : FloatType) (raw : Nat) : Binary64 :=
  let negative := raw.testBit (t.width - 1)
  let exponent := t.exponentField raw
  let fraction := roundSignificand (t.fractionField raw)
  let scale := t.fractionWidth
  if exponent = 0 then .timesPower negative fraction 0 (narrow (1 - narrow t.bias - scale))
  else if exponent = twoPow t.exponent - 1 then
    if t.fractionField raw = 0 then .infinity negative else .nan
  else
    .timesPower negative (roundSignificand (twoPow scale + fraction)) (-scale)
      (narrow (exponent - t.bias))

def value (t : FloatType) (raw : Nat) : Binary64 :=
  if t.exponent = 8 ∧ t.mantissa = 24 then .ofBinary32 (raw % twoPow 32)
  else if t.exponent = 11 ∧ t.mantissa = 53 then ⟨UInt64.ofNat raw⟩
  else t.compose raw

end FloatType

/-! ## Enumerations -/

/-- A label of an enumeration and the integers it stands for, bounds included. -/
structure LabelRange where
  label : String
  low : Int
  high : Int
deriving DecidableEq, Repr

/-- A type of integers some of which have labels, in the order of their declaration. -/
structure EnumType where
  container : IntegerType
  ranges : List LabelRange
deriving DecidableEq, Repr

namespace EnumType

/-- The label of an integer: that of the first range it lies in. -/
def labelOf? (t : EnumType) (n : Int) : Option String :=
  (t.ranges.find? fun range => range.low ≤ n && n ≤ range.high).map LabelRange.label

def hasLabel (t : EnumType) (label : String) : Bool :=
  t.ranges.any (·.label == label)

end EnumType

end CommonTrace
