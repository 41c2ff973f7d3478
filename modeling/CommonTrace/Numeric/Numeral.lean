import CommonTrace.Numeric.Width

/-!
# Numerals

A numeral is an optional sign and at least one digit of a base up to sixteen.  Digits beyond nine
are letters of either case.  Numerals are read into integers of 128 bits, and one that does not fit
is no numeral.
-/

namespace CommonTrace.Numeral

def digit? (base : Nat) (c : Char) : Option Nat :=
  let value :=
    if '0' ≤ c ∧ c ≤ '9' then c.toNat - '0'.toNat
    else if 'a' ≤ c ∧ c ≤ 'f' then c.toNat - 'a'.toNat + 10
    else if 'A' ≤ c ∧ c ≤ 'F' then c.toNat - 'A'.toNat + 10
    else base
  if value < base then some value else none

/-- The number that follows when the digits `digits` are written behind the number `n`. -/
def appendDigits? (base n : Nat) (digits : List Char) : Option Nat :=
  digits.foldlM (fun n c => (digit? base c).map (n * base + ·)) n

def natural? (base : Nat) (digits : List Char) : Option Nat :=
  if digits.isEmpty then none else appendDigits? base 0 digits

def integer? (base : Nat) (text : List Char) : Option Int := do
  let n ← match text with
    | '-' :: digits => (natural? base digits).map fun n => -(n : Int)
    | '+' :: digits => (natural? base digits).map Int.ofNat
    | digits => (natural? base digits).map Int.ofNat
  if FitsSigned 128 n then some n else none

end CommonTrace.Numeral
