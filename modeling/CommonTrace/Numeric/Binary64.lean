import CommonTrace.Numeric.Width

/-!
# Double precision numbers

A `Binary64` is a word of the IEEE 754 interchange format of sixty-four bits.  Words are built from
exact integers: `Binary64.ofDyadic` rounds the number `m * 2 ^ q` to the nearest word, and of two
equally near words it takes the one with an even significand.  No machine arithmetic is involved, so
what a word stands for can be reasoned about.

Rounding a magnitude works on the grid of its last place.  The place of `m * 2 ^ q` is the exponent
`52` below that of its leading bit, but never below `-1074`, where the subnormal numbers end.  After
rounding to a multiple `s` of that place, the encoding of the magnitude is
`(place + 1074) * 2 ^ 52 + s`: in a normal number the leading bit of `s` supplies the missing one of
the exponent field, and a carry out of the significand moves the exponent by itself.
-/

namespace CommonTrace

/-- A word of the double precision format. -/
structure Binary64 where
  bits : UInt64
deriving DecidableEq, Repr

/-- The multiple of `2 ^ shift` nearest to `m`, divided by `2 ^ shift`.  A tie goes to the even
quotient. -/
def roundShift (m shift : Nat) : Nat :=
  let quotient := m / twoPow shift
  let twice := 2 * (m % twoPow shift)
  if twice < twoPow shift then quotient
  else if twoPow shift < twice then quotient + 1
  else quotient + quotient % 2

/-- The number with at most fifty-three significant bits that is nearest to `m`, the one with an
even significand if two are. -/
def roundSignificand (m : Nat) : Nat :=
  let shift := m.log2 - 52
  roundShift m shift * twoPow shift

namespace Binary64

/-- The encoding of the magnitude of infinity; greater encodings are no numbers. -/
def infinityMagnitude : Nat := 0x7FF0000000000000

def ofMagnitude (negative : Bool) (magnitude : Nat) : Binary64 :=
  ⟨UInt64.ofNat (magnitude + if negative then twoPow 63 else 0)⟩

def infinity (negative : Bool) : Binary64 :=
  ofMagnitude negative infinityMagnitude

def nan : Binary64 :=
  ofMagnitude false 0x7FF8000000000000

def magnitude (x : Binary64) : Nat :=
  x.bits.toNat % twoPow 63

def isNaN (x : Binary64) : Bool :=
  infinityMagnitude < x.magnitude

def isFinite (x : Binary64) : Bool :=
  x.magnitude < infinityMagnitude

/-- The encoding of the magnitude nearest to `m * 2 ^ q`. -/
def roundMagnitude (m : Nat) (q : Int) : Nat :=
  let leading : Int := (m.log2 : Int) + q
  if m = 0 ∨ leading < -1075 then 0
  else if 1023 < leading then infinityMagnitude
  else
    let place := max (leading - 52) (-1074)
    let significand :=
      if place ≤ q then m * twoPow (q - place).toNat else roundShift m (place - q).toNat
    min infinityMagnitude ((place + 1074).toNat * twoPow 52 + significand)

/-- The word nearest to `m * 2 ^ q`, negated if `negative`. -/
def ofDyadic (negative : Bool) (m : Nat) (q : Int) : Binary64 :=
  ofMagnitude negative (roundMagnitude m q)

/-- The word nearest to `m * 2 ^ q` times the power `2 ^ n`, negated if `negative`, where the power is
computed first, by repeated squaring.  A negative power is the reciprocal of a positive one, so powers
that no double can represent become infinity, or zero; of those with a subnormal word `2 ^ (-1023)` is
the only one that is not lost. -/
def timesPower (negative : Bool) (m : Nat) (q n : Int) : Binary64 :=
  if n < -1023 then ofMagnitude negative 0
  else if 1023 < n then if m = 0 then nan else infinity negative
  else ofDyadic negative m (q + n)

/-- The word with the value of a single precision word, given by its thirty-two bits. -/
def ofBinary32 (word : Nat) : Binary64 :=
  let negative := word.testBit 31
  let exponent : Nat := word / twoPow 23 % twoPow 8
  let fraction := word % twoPow 23
  if exponent = 255 then if fraction = 0 then infinity negative else nan
  else if exponent = 0 then ofDyadic negative fraction (-149)
  else ofDyadic negative (twoPow 23 + fraction) ((exponent : Int) - 150)

end Binary64

end CommonTrace
