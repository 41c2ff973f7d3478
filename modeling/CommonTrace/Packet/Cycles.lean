import CommonTrace.Numeric.Width

/-!
# Time stamps of few bits

An event header may record the low bits of a clock only.  The full number of cycles follows from
that of the event before, because time does not run backwards: it is the least number with these low
bits that is not below it.  This is right as long as the clock does not advance by more than the
recorded bits can count from one event to the next.
-/

namespace CommonTrace

/-- The cycles of an event of which the low `width` bits are those of `raw`, where `last` are the
cycles of the event before.  Cycles have sixty-four bits, and a number recorded with as many is
taken as it is. -/
def extendCycles (last raw width : Nat) : Nat :=
  if 64 ≤ width then raw
  else
    let candidate := last / twoPow width * twoPow width + raw % twoPow width
    if candidate < last then (candidate + twoPow width) % twoPow 64 else candidate

end CommonTrace
