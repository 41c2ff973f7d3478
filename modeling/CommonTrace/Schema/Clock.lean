import CommonTrace.Bit.ByteOrder
import CommonTrace.Numeric.Width
import CommonTrace.Text.Uuid

/-!
# Clocks

Time stamps in a trace count the cycles of a clock.  A clock ticks with a frequency, starts from an
offset that is given in whole seconds and in cycles, and may have the Unix epoch as its origin.
-/

namespace CommonTrace

def nanosecondsPerSecond : Nat := 1000000000

/-- A clock of a trace.  It makes `frequency` cycles in a second, and cycle zero is
`offsetSeconds` seconds and then `offsetCycles` cycles behind the origin, which is the Unix epoch
if the clock is `absolute`.  The precision is the uncertainty in cycles.  Clocks of several traces
may have one identifier. -/
structure Clock where
  name : String
  uuid : Option Uuid
  description : Option String
  frequency : Nat
  offsetSeconds : Int
  offsetCycles : Int
  precision : Nat
  absolute : Bool
deriving DecidableEq, Repr

namespace Clock

/-- A clock of which only the name is declared: it counts nanoseconds. -/
def named (name : String) : Clock :=
  { name, uuid := none, description := none, frequency := nanosecondsPerSecond, offsetSeconds := 0,
    offsetCycles := 0, precision := 0, absolute := false }

/-- The nanoseconds that a number of ticks takes, rounded toward zero. -/
def ticksToNanoseconds (clock : Clock) (ticks : Int) : Int :=
  if clock.frequency = nanosecondsPerSecond then ticks
  else (ticks * nanosecondsPerSecond).tdiv (max clock.frequency 1)

/-- The nanoseconds from the origin to a cycle.  What lies before the origin counts as zero, and
what does not fit sixty-four bits as the greatest number that does. -/
def toNanoseconds (clock : Clock) (cycles : Nat) : Nat :=
  let total :=
    clock.ticksToNanoseconds (cycles + clock.offsetCycles)
      + clock.offsetSeconds * nanosecondsPerSecond
  min total.toNat (twoPow 64 - 1)

end Clock

/-- The value of an entry that describes the environment of a trace. -/
inductive EnvValue where
  | integer (n : Int)
  | string (s : String)
deriving DecidableEq, Repr

end CommonTrace
