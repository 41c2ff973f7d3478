import CommonTrace.Proofs.Bit.Positional
import CommonTrace.Proofs.Schema.Clock
import Mathlib.Algebra.Order.Field.Basic
import Mathlib.Algebra.Order.Ring.Cast
import Mathlib.Data.Rat.Cast.Order
import Mathlib.Tactic.FieldSimp
import Mathlib.Tactic.Linarith
import Mathlib.Tactic.Ring

/-!
# How clocks round

The nanoseconds at a cycle are a fraction, of which a clock gives a whole number.  The seconds of its offset
are whole already; the ticks, which are the cycles and those of its offset, are divided by the frequency, and
that is rounded toward zero.  So the result is less than one nanosecond away from the fraction, before it is
cut off to sixty-four bits (`Clock.abs_unclamped_sub_lt`).  On the way there is no number that would not
fit 128 bits (`Clock.nanosecondsInLongs?_eq`).

Rounding toward zero is not the same on both sides of zero.  Of two clocks that tell the same time, because one
has some seconds of its offset among the cycles, one may have ticks before zero where the other one has not.
Such clocks can differ by one nanosecond, and no more (`Clock.toNanoseconds_moved_iff`).
-/

namespace CommonTrace

/-! ## Numbers of 128 bits -/

/-- An integer, if it has a two's complement form of 128 bits. -/
def long? (n : ℤ) : Option ℤ :=
  if FitsSigned 128 n then some n else none

/-- A quotient rounded toward zero, if there is one, and it has a two's complement form of 128 bits. -/
def longQuotient? (m n : ℤ) : Option ℤ :=
  if n = 0 then none else long? (m.tdiv n)

lemma long?_of_natAbs_lt {n : ℤ} (h : n.natAbs < twoPow 127) : long? n = some n := by
  refine if_pos ⟨?_, ?_⟩
  · change -(twoPow 127 : ℤ) ≤ n
    omega
  · change n < (twoPow 127 : ℤ)
    omega

lemma longQuotient?_of_natAbs_lt {m n : ℤ} (hn : n ≠ 0) (h : m.natAbs < twoPow 127) :
    longQuotient? m n = some (m.tdiv n) := by
  rw [longQuotient?, if_neg hn]
  exact long?_of_natAbs_lt (Nat.lt_of_le_of_lt (Int.natAbs_tdiv_le_natAbs m n) h)

/-- Rounding toward zero changes a quotient by less than one. -/
lemma abs_tdiv_sub_lt {n : ℤ} (hn : 0 < n) (m : ℤ) : |((m.tdiv n : ℤ) : ℚ) - m / n| < 1 := by
  have hpositive : (0 : ℚ) < n := by exact_mod_cast hn
  have hdivision : (m : ℚ) = n * (m.tdiv n : ℤ) + (m.tmod n : ℤ) := by
    exact_mod_cast (Int.mul_tdiv_add_tmod m n).symm
  have hdifference : ((m.tdiv n : ℤ) : ℚ) - m / n = -(m.tmod n : ℤ) / n := by
    rw [hdivision]
    field_simp
    ring
  have hlow : -(n : ℚ) < (m.tmod n : ℤ) := by exact_mod_cast Int.lt_tmod_of_pos m hn
  have hhigh : ((m.tmod n : ℤ) : ℚ) < n := by exact_mod_cast Int.tmod_lt_of_pos m hn
  rw [hdifference, abs_lt, lt_div_iff₀ hpositive, div_lt_one hpositive]
  exact ⟨by linarith, by linarith⟩

namespace Clock

variable {clock : Clock}

/-- The properties of the clock fit the words that hold them. -/
structure Fits (clock : Clock) : Prop where
  frequency : clock.frequency < twoPow 64
  offsetSeconds : FitsSigned 64 clock.offsetSeconds
  offsetCycles : FitsSigned 64 clock.offsetCycles

/-! ## What is rounded -/

/-- The ticks at a cycle. -/
def ticks (clock : Clock) (cycles : ℕ) : ℤ :=
  cycles + clock.offsetCycles

/-- The nanoseconds from the origin to a cycle, as a fraction. -/
def exactNanoseconds (clock : Clock) (cycles : ℕ) : ℚ :=
  (cycles + clock.offsetCycles) * nanosecondsPerSecond / max clock.frequency 1
    + clock.offsetSeconds * nanosecondsPerSecond

/-- The nanoseconds from the origin to a cycle, before they are cut off to sixty-four bits. -/
def unclamped (clock : Clock) (cycles : ℕ) : ℤ :=
  clock.ticksToNanoseconds (clock.ticks cycles) + clock.offsetSeconds * nanosecondsPerSecond

/-- The nanoseconds that a number of ticks takes, in numbers of 128 bits. -/
def ticksInLongs? (clock : Clock) (ticks : ℤ) : Option ℤ :=
  if max clock.frequency 1 = nanosecondsPerSecond then some ticks
  else do longQuotient? (← long? (ticks * nanosecondsPerSecond)) (max clock.frequency 1)

/-- The conversion in numbers of 128 bits, which comes to nothing if one of them does not fit. -/
def nanosecondsInLongs? (clock : Clock) (cycles : ℕ) : Option ℕ := do
  let nanoseconds ← clock.ticksInLongs? (← long? (clock.ticks cycles))
  let total ← long? (nanoseconds + (← long? (clock.offsetSeconds * nanosecondsPerSecond)))
  return (max 0 (min total (twoPow 64 - 1))).toNat

lemma coe_toNanoseconds (clock : Clock) (cycles : ℕ) :
    (clock.toNanoseconds cycles : ℤ) = max 0 (min (clock.unclamped cycles) (twoPow 64 - 1)) := by
  have hpositive := twoPow_pos 64
  simp only [toNanoseconds, unclamped, ticks]
  omega

/-- Ticks of one nanosecond are no exception: for them, too, the quotient is taken. -/
lemma ticksToNanoseconds_eq_tdiv (clock : Clock) (ticks : ℤ) :
    clock.ticksToNanoseconds ticks =
      (ticks * nanosecondsPerSecond).tdiv (max clock.frequency 1) := by
  unfold ticksToNanoseconds
  split
  · rename_i hfrequency
    have hmax : max (clock.frequency : ℤ) 1 = nanosecondsPerSecond := by
      rw [hfrequency]
      decide
    rw [hmax, Int.mul_tdiv_cancel ticks (by decide)]
  · rfl

lemma natAbs_ticksToNanoseconds_le (clock : Clock) (ticks : ℤ) :
    (clock.ticksToNanoseconds ticks).natAbs ≤ (ticks * nanosecondsPerSecond).natAbs := by
  rw [ticksToNanoseconds_eq_tdiv]
  exact Int.natAbs_tdiv_le_natAbs _ _

/-- **The whole number is less than one away from the fraction.** -/
lemma abs_unclamped_sub_lt (clock : Clock) (cycles : ℕ) :
    |(clock.unclamped cycles : ℚ) - clock.exactNanoseconds cycles| < 1 := by
  have hfrequency : (0 : ℤ) < max clock.frequency 1 := by omega
  have hquotient := abs_tdiv_sub_lt hfrequency ((cycles + clock.offsetCycles) * nanosecondsPerSecond)
  rw [unclamped, ticks, ticksToNanoseconds_eq_tdiv, exactNanoseconds]
  push_cast at hquotient ⊢
  rwa [add_sub_add_right_eq_sub]

lemma ticksInLongs?_of_natAbs_lt {ticks : ℤ} (h : (ticks * nanosecondsPerSecond).natAbs < twoPow 127) :
    clock.ticksInLongs? ticks = some (clock.ticksToNanoseconds ticks) := by
  have hpositive : 1 ≤ nanosecondsPerSecond := by decide
  have hdivisor : max (clock.frequency : ℤ) 1 ≠ 0 := by omega
  by_cases hfrequency : clock.frequency = nanosecondsPerSecond
  · rw [ticksInLongs?, if_pos (by omega), ticksToNanoseconds, if_pos hfrequency]
  · have hother : max clock.frequency 1 ≠ nanosecondsPerSecond := by
      have hseveral : nanosecondsPerSecond ≠ 1 := by decide
      omega
    rw [ticksInLongs?, if_neg hother, long?_of_natAbs_lt h, ticksToNanoseconds, if_neg hfrequency]
    exact longQuotient?_of_natAbs_lt hdivisor h

/-- Seconds of somewhat more than a word take up less than two words in nanoseconds. -/
lemma natAbs_mul_nanosecondsPerSecond_lt {n : ℤ} (h : n.natAbs < twoPow 65) :
    (n * nanosecondsPerSecond).natAbs < twoPow 96 := by
  have hbound : twoPow 65 = 36893488147419103232 := by decide
  have hproduct : twoPow 96 = 79228162514264337593543950336 := by decide
  have hrate : (nanosecondsPerSecond : ℤ) = 1000000000 := rfl
  rw [hrate]
  omega

/-- **No number on the way is too large.** -/
lemma nanosecondsInLongs?_eq (h : clock.Fits) {cycles : ℕ} (hcycles : cycles < twoPow 64) :
    clock.nanosecondsInLongs? cycles = some (clock.toNanoseconds cycles) := by
  obtain ⟨-, ⟨hsecondsLow, hsecondsHigh⟩, hcyclesLow, hcyclesHigh⟩ := h
  have hhalf : twoPow (64 - 1) = 9223372036854775808 := by decide
  have hword : twoPow 64 = 18446744073709551616 := by decide
  have hmore : twoPow 65 = 36893488147419103232 := by decide
  have hlarge : twoPow 96 = 79228162514264337593543950336 := by decide
  have hlong : twoPow 127 = 170141183460469231731687303715884105728 := by decide
  have hticks : (clock.ticks cycles).natAbs < twoPow 65 := by
    rw [ticks]
    omega
  have hscaled := natAbs_mul_nanosecondsPerSecond_lt hticks
  have hseconds := natAbs_mul_nanosecondsPerSecond_lt (n := clock.offsetSeconds) (by omega)
  have hquotient := clock.natAbs_ticksToNanoseconds_le (clock.ticks cycles)
  have htotal : (clock.unclamped cycles).natAbs < twoPow 127 := by
    rw [unclamped]
    omega
  calc clock.nanosecondsInLongs? cycles
    _ = some (max 0 (min (clock.unclamped cycles) (twoPow 64 - 1))).toNat := by
      simp only [nanosecondsInLongs?, long?_of_natAbs_lt (Nat.lt_trans hticks (by omega)),
        ticksInLongs?_of_natAbs_lt (Nat.lt_trans hscaled (by omega)),
        long?_of_natAbs_lt (Nat.lt_trans hseconds (by omega)), Option.bind_eq_bind, Option.bind_some,
        ← unclamped.eq_1, long?_of_natAbs_lt htotal]
      rfl
    _ = some (clock.toNanoseconds cycles) := by
      rw [← clock.coe_toNanoseconds, Int.toNat_natCast]

/-- **What a clock makes of its cycles**, if its properties fit their words.  Words of 128 bits are enough for
the conversion, ticks of one nanosecond are divided like others, later cycles give no smaller number, and the
number is a whole one less than one nanosecond away from the fraction, cut off to sixty-four bits. -/
theorem rounds_of_fits (clock : Clock) (h : clock.Fits) :
    (∀ cycles < twoPow 64, clock.nanosecondsInLongs? cycles = some (clock.toNanoseconds cycles)) ∧
      (∀ ticks, clock.ticksToNanoseconds ticks =
        (ticks * nanosecondsPerSecond).tdiv (max clock.frequency 1)) ∧
      (∀ m n, m ≤ n → clock.toNanoseconds m ≤ clock.toNanoseconds n) ∧
      ∀ cycles, |(clock.unclamped cycles : ℚ) - clock.exactNanoseconds cycles| < 1 ∧
        (clock.toNanoseconds cycles : ℤ) = max 0 (min (clock.unclamped cycles) (twoPow 64 - 1)) :=
  ⟨fun _ => nanosecondsInLongs?_eq h, clock.ticksToNanoseconds_eq_tdiv, fun _ _ => toNanoseconds_le,
    fun cycles => ⟨clock.abs_unclamped_sub_lt cycles, clock.coe_toNanoseconds cycles⟩⟩

/-- A clock that ticks three times a second and whose cycle zero is one tick before its first second. -/
def threeTicks : Clock :=
  { named "c" with frequency := 3, offsetSeconds := 1, offsetCycles := -1 }

lemma threeTicks_fits : threeTicks.Fits where
  frequency := by decide
  offsetSeconds := by decide
  offsetCycles := by decide

theorem rounds_of_fits_threeTicks :
    threeTicks.Fits ∧ threeTicks.nanosecondsInLongs? 0 = some 666666667 ∧
      |(threeTicks.unclamped 0 : ℚ) - threeTicks.exactNanoseconds 0| < 1 := by
  obtain ⟨hlongs, -, -, hclose⟩ := threeTicks.rounds_of_fits threeTicks_fits
  exact ⟨threeTicks_fits, hlongs 0 (by decide), (hclose 0).1⟩

/-! ## Offsets in seconds and in cycles -/

/-- The clock with some seconds of its offset among the cycles. -/
def moved (clock : Clock) (seconds : ℤ) : Clock :=
  { clock with
    offsetSeconds := clock.offsetSeconds - seconds
    offsetCycles := clock.offsetCycles + seconds * clock.frequency }

@[simp] lemma ticks_moved (clock : Clock) (seconds : ℤ) (cycles : ℕ) :
    (clock.moved seconds).ticks cycles = clock.ticks cycles + seconds * clock.frequency := by
  rw [ticks, ticks, moved]
  ring

/-- The nanoseconds from the origin to a cycle, rounded down. -/
def floored (clock : Clock) (cycles : ℕ) : ℤ :=
  clock.ticks cycles * nanosecondsPerSecond / clock.frequency + clock.offsetSeconds * nanosecondsPerSecond

/-- The ticks at a cycle take a whole number of nanoseconds. -/
def Whole (clock : Clock) (cycles : ℕ) : Prop :=
  (clock.frequency : ℤ) ∣ clock.ticks cycles * nanosecondsPerSecond

instance (clock : Clock) (cycles : ℕ) : Decidable (clock.Whole cycles) :=
  inferInstanceAs (Decidable (_ ∣ _))

lemma ticks_mul_moved (clock : Clock) (seconds : ℤ) (cycles : ℕ) :
    (clock.moved seconds).ticks cycles * nanosecondsPerSecond =
      clock.ticks cycles * nanosecondsPerSecond + seconds * nanosecondsPerSecond * clock.frequency := by
  rw [ticks_moved]
  ring

lemma whole_moved (clock : Clock) (seconds : ℤ) (cycles : ℕ) :
    (clock.moved seconds).Whole cycles ↔ clock.Whole cycles := by
  rw [Whole, ticks_mul_moved]
  exact Int.dvd_add_left (Int.dvd_mul_left _ _)

/-- Rounding down does not depend on how the offset is split. -/
lemma floored_moved (hfrequency : 0 < clock.frequency) (seconds : ℤ) (cycles : ℕ) :
    (clock.moved seconds).floored cycles = clock.floored cycles := by
  have hnonzero : (clock.frequency : ℤ) ≠ 0 := by omega
  rw [floored, floored, ticks_mul_moved]
  change (_ + seconds * nanosecondsPerSecond * clock.frequency) / (clock.frequency : ℤ)
    + (clock.offsetSeconds - seconds) * nanosecondsPerSecond = _
  rw [Int.add_mul_ediv_right _ _ hnonzero]
  ring

lemma ticks_mul_nonneg_iff (clock : Clock) (cycles : ℕ) :
    0 ≤ clock.ticks cycles * nanosecondsPerSecond ↔ 0 ≤ clock.ticks cycles := by
  have hrate : (nanosecondsPerSecond : ℤ) = 1000000000 := rfl
  rw [hrate]
  omega

/-- **Rounding toward zero is rounding down**, except that before zero it is rounding up. -/
lemma unclamped_eq_floored_add (clock : Clock) (hfrequency : 0 < clock.frequency) (cycles : ℕ) :
    clock.unclamped cycles =
      clock.floored cycles + if clock.ticks cycles < 0 ∧ ¬ clock.Whole cycles then 1 else 0 := by
  have hmax : max (clock.frequency : ℤ) 1 = clock.frequency := by omega
  rw [unclamped, floored, ticksToNanoseconds_eq_tdiv, hmax, Int.tdiv_eq_ediv,
    Int.sign_eq_one_of_pos (by omega)]
  by_cases hup : clock.ticks cycles < 0 ∧ ¬ clock.Whole cycles
  · have hneither : ¬ (0 ≤ clock.ticks cycles * nanosecondsPerSecond ∨
        (clock.frequency : ℤ) ∣ clock.ticks cycles * nanosecondsPerSecond) := by
      rw [ticks_mul_nonneg_iff]
      exact not_or.mpr ⟨not_le.mpr hup.1, hup.2⟩
    rw [if_neg hneither, if_pos hup, add_right_comm]
  · have heither : 0 ≤ clock.ticks cycles * nanosecondsPerSecond ∨
        (clock.frequency : ℤ) ∣ clock.ticks cycles * nanosecondsPerSecond := by
      rw [ticks_mul_nonneg_iff, ← not_lt, ← imp_iff_not_or]
      exact not_and_not_right.mp hup
    rw [if_pos heither, if_neg hup, add_zero, add_zero]

/-- **Which clocks that tell the same time give the same nanoseconds.**  Seconds of the offset may be counted
among the cycles, unless that brings ticks from one side of zero to the other that take no whole number of
nanoseconds; then the clock whose ticks are before zero is ahead by one nanosecond.  This does not show where
both numbers are cut off. -/
theorem toNanoseconds_moved_iff (clock : Clock) (hfrequency : 0 < clock.frequency) (seconds : ℤ)
    (cycles : ℕ) :
    ((clock.moved seconds).toNanoseconds cycles = clock.toNanoseconds cycles ↔
        ((clock.moved seconds).ticks cycles < 0 ↔ clock.ticks cycles < 0) ∨ clock.Whole cycles ∨
          clock.floored cycles < 0 ∨ twoPow 64 - 1 ≤ clock.floored cycles) ∧
      (clock.ticks cycles < 0 → 0 ≤ (clock.moved seconds).ticks cycles → ¬ clock.Whole cycles →
        clock.unclamped cycles = (clock.moved seconds).unclamped cycles + 1) ∧
      (0 ≤ clock.ticks cycles → (clock.moved seconds).ticks cycles < 0 → ¬ clock.Whole cycles →
        (clock.moved seconds).unclamped cycles = clock.unclamped cycles + 1) := by
  have hclock := clock.unclamped_eq_floored_add hfrequency cycles
  have hmoved := (clock.moved seconds).unclamped_eq_floored_add hfrequency cycles
  simp only [clock.floored_moved hfrequency, whole_moved] at hmoved
  have hcut := clock.coe_toNanoseconds cycles
  have hmovedCut := (clock.moved seconds).coe_toNanoseconds cycles
  have hpositive := twoPow_pos 64
  -- What is rounded down is the same for both, so each of them is it or one more, as its ticks lie.
  by_cases hwhole : clock.Whole cycles
  · simp only [hwhole, not_true_eq_false, and_false, if_false] at hclock hmoved
    refine ⟨iff_of_true ?_ (.inr (.inl hwhole)), fun _ _ h => absurd hwhole h, fun _ _ h => absurd hwhole h⟩
    omega
  · simp only [hwhole, not_false_eq_true, and_true] at hclock hmoved
    refine ⟨?_, fun hbefore hbehind _ => ?_, fun hbehind hbefore _ => ?_⟩
    · simp only [hwhole, false_or]
      split_ifs at hclock hmoved <;> omega
    · rw [if_pos hbefore] at hclock
      rw [if_neg (not_lt.mpr hbehind)] at hmoved
      omega
    · rw [if_neg (not_lt.mpr hbehind)] at hclock
      rw [if_pos hbefore] at hmoved
      omega

/-- A second after the origin, and a tick before that: the last third of the first second.  In cycles, this is
behind the origin. -/
theorem toNanoseconds_moved_threeTicks :
    0 < threeTicks.frequency ∧ ¬ threeTicks.Whole 0 ∧
      threeTicks.unclamped 0 = (threeTicks.moved 1).unclamped 0 + 1 := by
  have hwhole : ¬ threeTicks.Whole 0 := by decide
  obtain ⟨-, hahead, -⟩ := threeTicks.toNanoseconds_moved_iff (by decide) 1 0
  exact ⟨by decide, hwhole, hahead (by decide) (by decide) hwhole⟩

/-- Not every clock gives the same nanoseconds with seconds of its offset among the cycles. -/
theorem not_forall_toNanoseconds_moved :
    ¬ ∀ (clock : Clock) (seconds : ℤ) (cycles : ℕ), clock.Fits → (clock.moved seconds).Fits →
      0 < clock.frequency → cycles < twoPow 64 →
        (clock.moved seconds).toNanoseconds cycles = clock.toNanoseconds cycles := by
  intro hclaim
  have hmoved : (threeTicks.moved 1).Fits := ⟨by decide, by decide, by decide⟩
  have hsame := hclaim threeTicks 1 0 threeTicks_fits hmoved (by decide) (by decide)
  exact absurd hsame (by decide)

end Clock

end CommonTrace
