import CommonTrace.Schema.Basic
import Mathlib.Data.Int.Notation
import Mathlib.Data.Nat.Notation
import Mathlib.Tactic.Lemma

/-!
# Clocks do not run backwards

Whatever a clock declares of itself, of two cycles the later one has no fewer nanoseconds
(`Metadata.toNanoseconds_le`), and nanoseconds are numbers of sixty-four bits if cycles are.
-/

namespace CommonTrace

namespace Clock

variable {clock : Clock}

lemma ticksToNanoseconds_le {m n : ℤ} (h : m ≤ n) :
    clock.ticksToNanoseconds m ≤ clock.ticksToNanoseconds n := by
  unfold ticksToNanoseconds
  by_cases hfrequency : clock.frequency = nanosecondsPerSecond
  · simpa [hfrequency] using h
  · simp only [hfrequency, if_false]
    apply Int.tdiv_le_tdiv
    · omega
    · apply Int.mul_le_mul_of_nonneg_right h
      simp [nanosecondsPerSecond]

lemma toNanoseconds_le {m n : ℕ} (h : m ≤ n) : clock.toNanoseconds m ≤ clock.toNanoseconds n := by
  have hticks : clock.ticksToNanoseconds (m + clock.offsetCycles) ≤
      clock.ticksToNanoseconds (n + clock.offsetCycles) := by
    apply ticksToNanoseconds_le
    omega
  simp only [toNanoseconds]
  omega

lemma toNanoseconds_lt (clock : Clock) (cycles : ℕ) : clock.toNanoseconds cycles < twoPow 64 := by
  have hpositive := twoPow_pos 64
  simp only [toNanoseconds]
  omega

end Clock

namespace Metadata

variable {metadata : Metadata} {name : Option String}

theorem toNanoseconds_le {m n : ℕ} (h : m ≤ n) :
    metadata.toNanoseconds name m ≤ metadata.toNanoseconds name n := by
  unfold toNanoseconds
  cases metadata.clock? name with
  | none => exact h
  | some clock => exact Clock.toNanoseconds_le h

theorem toNanoseconds_lt {cycles : ℕ} (h : cycles < twoPow 64) :
    metadata.toNanoseconds name cycles < twoPow 64 := by
  unfold toNanoseconds
  cases metadata.clock? name with
  | none => exact h
  | some clock => exact clock.toNanoseconds_lt cycles

end Metadata

end CommonTrace
