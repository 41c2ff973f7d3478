import CommonTrace.FieldType.Scalar
import CommonTrace.Proofs.Bit.Positional
import CommonTrace.Proofs.Schema.WellFormed

/-!
# The powers of two in floating point numbers

A floating point number is a fraction times a power of two, and the exponent of that power is the exponent
field less the bias.  Both are computed exactly, and then only thirty-two bits of them are kept
(`FloatType.narrow`).  Up to an exponent field of thirty-two bits nothing is lost by this.  A bias of more
bits than that is kept as `-1`, and then the powers are those of another number altogether: one that no
double can represent is given as an ordinary number.

`FloatType.KeepsPowers` says what should hold of a word.  `FloatType.keepsPowers_iff` says for which layouts it
does hold of all words.  The layouts with thirty-two bits of exponent are a case apart: bias and power
are kept, but there the least power and the places of the fraction, taken together, need thirty-two bits
only if there are at most two such places.
-/

namespace CommonTrace

/-! ## Rounding to significant bits -/

lemma le_roundShift (m shift : ℕ) : m / twoPow shift ≤ roundShift m shift := by
  unfold roundShift
  dsimp only
  split
  · exact le_rfl
  · split <;> omega

lemma twoPow_log2_le {m : ℕ} (hm : m ≠ 0) : twoPow m.log2 ≤ m := by
  rw [twoPow_eq]
  exact Nat.log2_self_le hm

/-- Rounding keeps the place of the leading bit, or moves it up. -/
lemma twoPow_log2_le_roundSignificand {m : ℕ} (hm : m ≠ 0) : twoPow m.log2 ≤ roundSignificand m := by
  unfold roundSignificand
  dsimp only
  generalize hshift : m.log2 - 52 = shift
  have hsplit : twoPow m.log2 = twoPow (m.log2 - shift) * twoPow shift := by
    rw [← twoPow_add, Nat.sub_add_cancel (by omega)]
  have hquotient : twoPow (m.log2 - shift) ≤ m / twoPow shift := by
    rw [Nat.le_div_iff_mul_le (twoPow_pos shift), ← hsplit]
    exact twoPow_log2_le hm
  rw [hsplit]
  exact Nat.mul_le_mul_right _ (hquotient.trans (le_roundShift m shift))

/-- What is not zero is not rounded to zero. -/
lemma roundSignificand_ne_zero {m : ℕ} (hm : m ≠ 0) : roundSignificand m ≠ 0 := by
  have hrounded := twoPow_log2_le_roundSignificand hm
  have hpositive := twoPow_pos m.log2
  omega

/-! ## Powers beyond the range of a double -/

namespace Binary64

variable {negative : Bool} {m : ℕ} {q n : ℤ}

lemma timesPower_eq_infinity (hm : m ≠ 0) (h : 1023 < n) :
    timesPower negative m q n = infinity negative := by
  rw [timesPower, if_neg (by omega), if_pos h, if_neg hm]

lemma timesPower_eq_zero (h : n < -1023) : timesPower negative m q n = ofMagnitude negative 0 := by
  rw [timesPower, if_pos h]

end Binary64

/-- **Exponents on the same side** of those that a double can have: the same exponent, or both too great, or
both too small. -/
def SameSide (p q : ℤ) : Prop :=
  p = q ∨ (1023 < p ∧ 1023 < q) ∨ (p < -1075 ∧ q < -1075)

instance (p q : ℤ) : Decidable (SameSide p q) :=
  inferInstanceAs (Decidable (_ ∨ _))

namespace FloatType

variable {t : FloatType} {raw : ℕ}

/-! ## Thirty-two bits -/

lemma narrow_eq {n : ℤ} (hlow : -twoPow 31 ≤ n) (hhigh : n < twoPow 31) : narrow n = n := by
  have hhalf : (twoPow 31 : ℤ) = 2147483648 := rfl
  have hwhole : twoPow 32 = 4294967296 := rfl
  rw [narrow, hwhole]
  exact Int.bmod_eq_of_le_mul_two (by omega) (by omega)

/-- Of a bias of more than thirty-two bits, thirty-two ones are kept. -/
lemma narrow_bias_of_lt (h : 32 < t.exponent) : narrow t.bias = -1 := by
  have hsplit : twoPow (t.exponent - 1) = twoPow (t.exponent - 33) * twoPow 32 := by
    rw [← twoPow_add]
    congr 1
    omega
  rw [narrow, bias, hsplit, Int.natCast_mul, Int.sub_eq_add_neg, Int.add_comm,
    Int.add_mul_bmod_self_right]
  decide

/-! ## The exact powers -/

/-- The sign of a word. -/
def negative (t : FloatType) (raw : ℕ) : Bool :=
  raw.testBit (t.width - 1)

/-- The word stands for a number, not for infinity or for something that is no number. -/
def Numeric (t : FloatType) (raw : ℕ) : Prop :=
  t.exponentField raw ≠ twoPow t.exponent - 1

/-- The exponent of the power of two that belongs to a word.  Zero in the exponent field means the
same as one, with a fraction that has no leading one. -/
def exactPower (t : FloatType) (raw : ℕ) : ℤ :=
  if t.exponentField raw = 0 then 1 - t.bias else t.exponentField raw - t.bias

/-- The exponent that is computed in place of it. -/
def narrowPower (t : FloatType) (raw : ℕ) : ℤ :=
  if t.exponentField raw = 0 then 1 - narrow t.bias else narrow (t.exponentField raw - t.bias)

/-- The value of a word, composed of its fraction and a power of two with the given exponent. -/
def composeBy (t : FloatType) (power : ℤ) (raw : ℕ) : Binary64 :=
  let fraction := roundSignificand (t.fractionField raw)
  let scale := t.fractionWidth
  if t.exponentField raw = 0 then .timesPower (t.negative raw) fraction 0 (power - scale)
  else if t.exponentField raw = twoPow t.exponent - 1 then
    if t.fractionField raw = 0 then .infinity (t.negative raw) else .nan
  else .timesPower (t.negative raw) (roundSignificand (twoPow scale + fraction)) (-scale) power

/-- Where the least power fits its word, no more is lost of a power than `narrowPower` says. -/
lemma compose_eq_composeBy (hfits : FitsSigned 32 (1 - narrow t.bias - t.fractionWidth)) (raw : ℕ) :
    t.compose raw = t.composeBy (t.narrowPower raw) raw := by
  have hleast : narrow (1 - narrow t.bias - t.fractionWidth) = 1 - narrow t.bias - t.fractionWidth :=
    narrow_eq hfits.1 hfits.2
  unfold compose composeBy narrowPower
  dsimp only
  split
  · rw [hleast]
    rfl
  · split <;> rfl

lemma exponentField_lt (t : FloatType) (raw : ℕ) : t.exponentField raw < twoPow t.exponent :=
  Nat.mod_lt _ (twoPow_pos _)

/-- A number with too great a power is infinite. -/
lemma composeBy_eq_infinity {power : ℤ} (hfield : t.exponentField raw ≠ 0) (hnumeric : t.Numeric raw)
    (h : 1023 < power) : t.composeBy power raw = .infinity (t.negative raw) := by
  unfold composeBy
  dsimp only
  rw [if_neg hfield, if_neg hnumeric]
  have hpositive := twoPow_pos t.fractionWidth
  exact Binary64.timesPower_eq_infinity (roundSignificand_ne_zero (by omega)) h

/-- A number with too small a power is zero. -/
lemma composeBy_eq_zero {power : ℤ} (hnumeric : t.Numeric raw) (h : power < -1075) :
    t.composeBy power raw = .ofMagnitude (t.negative raw) 0 := by
  unfold composeBy
  dsimp only
  split
  · exact Binary64.timesPower_eq_zero (by omega)
  · rw [if_neg hnumeric]
    exact Binary64.timesPower_eq_zero (by omega)

/-- What stands for no number has no power. -/
lemma composeBy_congr {power power' : ℤ} (h : t.Numeric raw → power = power') (hexponent : 0 < t.exponent) :
    t.composeBy power raw = t.composeBy power' raw := by
  by_cases hnumeric : t.Numeric raw
  · rw [h hnumeric]
  · have hfield : t.exponentField raw = twoPow t.exponent - 1 := not_not.mp hnumeric
    have hnonzero : t.exponentField raw ≠ 0 := by
      have hle : twoPow 1 ≤ twoPow t.exponent := twoPow_le hexponent
      have hone : twoPow 1 = 2 := rfl
      omega
    unfold composeBy
    dsimp only
    rw [if_neg hnonzero, if_pos hfield, if_neg hnonzero, if_pos hfield]

/-! ## What is kept -/

/-- **The powers of a word are kept.**  The bias and the power of two are those of the exact numbers or, where
no double has them, on the same side as these, and the least power with the places of the fraction fits its
word.  So the value is that with the exact power: a number beyond the range of a double is infinite or
zero. -/
structure KeepsPowers (t : FloatType) (raw : ℕ) : Prop where
  bias : SameSide (narrow t.bias) t.bias
  fits : FitsSigned 32 (1 - narrow t.bias - t.fractionWidth)
  power : t.Numeric raw → SameSide (t.narrowPower raw) (t.exactPower raw)
  value : t.compose raw = t.composeBy (t.exactPower raw) raw
  infinite : t.Numeric raw → 1023 < t.exactPower raw → t.compose raw = .infinity (t.negative raw)
  zero : t.Numeric raw → t.exactPower raw < -1075 → t.compose raw = .ofMagnitude (t.negative raw) 0

/-- Twice the bias are the exponents of all numbers. -/
lemma twoPow_exponent (ht : t.WellFormed) : (twoPow t.exponent : ℤ) = 2 * (t.bias + 1) := by
  have hexponent := ht.exponent
  have hsucc := twoPow_succ (t.exponent - 1)
  rw [Nat.sub_add_cancel (by omega)] at hsucc
  unfold bias
  omega

lemma bias_bounds (ht : t.WellFormed) (h : t.exponent ≤ 32) : 1 ≤ t.bias ∧ t.bias ≤ twoPow 31 - 1 := by
  have hexponent := ht.exponent
  have hlow : twoPow 1 ≤ twoPow (t.exponent - 1) := twoPow_le (by omega)
  have hhigh : twoPow (t.exponent - 1) ≤ twoPow 31 := twoPow_le (by omega)
  have hone : twoPow 1 = 2 := rfl
  unfold bias
  omega

lemma narrow_bias_eq (ht : t.WellFormed) (h : t.exponent ≤ 32) : narrow t.bias = t.bias := by
  obtain ⟨hlow, hhigh⟩ := bias_bounds ht h
  exact narrow_eq (by omega) (by omega)

/-- An exponent of up to thirty-two bits less its bias fits thirty-two bits. -/
lemma narrowPower_eq (ht : t.WellFormed) (h : t.exponent ≤ 32) (hnumeric : t.Numeric raw) :
    t.narrowPower raw = t.exactPower raw := by
  obtain ⟨hlow, hhigh⟩ := bias_bounds ht h
  have hpower := twoPow_exponent ht
  have hfield := t.exponentField_lt raw
  unfold Numeric at hnumeric
  unfold narrowPower exactPower
  split
  · rw [narrow_bias_eq ht h]
  · exact narrow_eq (by omega) (by omega)

/-- A bias of more than thirty-two bits is not kept. -/
lemma exponent_le_of_sameSide (ht : t.WellFormed) (h : SameSide (narrow t.bias) t.bias) : t.exponent ≤ 32 := by
  have hexponent := ht.exponent
  have hwhole : twoPow 32 = 4294967296 := rfl
  by_contra hgt
  have hgreat : twoPow 32 ≤ twoPow (t.exponent - 1) := twoPow_le (by omega)
  have hexact : (twoPow 32 : ℤ) - 1 ≤ t.bias := by
    unfold bias
    omega
  rw [narrow_bias_of_lt (by omega)] at h
  unfold SameSide at h
  omega

/-- The least power with the places of the fraction fits its word unless the bias takes all of this. -/
lemma fits_iff (ht : t.WellFormed) (h : t.exponent ≤ 32) :
    FitsSigned 32 (1 - narrow t.bias - t.fractionWidth) ↔ t.exponent ≤ 31 ∨ t.mantissa ≤ 3 := by
  have hmantissa := ht.mantissa
  have hwidth := ht.width_le
  have hword : (twoPow 31 : ℤ) = 2147483648 := rfl
  obtain ⟨hlow, -⟩ := bias_bounds ht h
  have hfits : FitsSigned 32 (1 - narrow t.bias - t.fractionWidth) ↔
      -(twoPow 31 : ℤ) ≤ 1 - t.bias - t.fractionWidth ∧ 1 - t.bias - t.fractionWidth < twoPow 31 := by
    rw [narrow_bias_eq ht h]
    rfl
  rw [hfits]
  unfold fractionWidth
  rcases h.lt_or_eq with hlt | heq
  · have hpower : twoPow (t.exponent - 1) ≤ twoPow 30 := twoPow_le (by omega)
    have hquarter : twoPow 30 = 1073741824 := rfl
    have hsmall : t.bias ≤ twoPow 30 - 1 := by
      unfold bias
      omega
    omega
  · have hexact : t.bias = twoPow 31 - 1 := by rw [bias, heq]
    omega

/-- A bias of which only ones are kept leaves room for the places of any fraction. -/
lemma fits_of_lt (ht : t.WellFormed) (h : 32 < t.exponent) :
    FitsSigned 32 (1 - narrow t.bias - t.fractionWidth) := by
  have hwidth := ht.width_le
  have hword : (twoPow (32 - 1) : ℤ) = 2147483648 := rfl
  rw [narrow_bias_of_lt h]
  unfold FitsSigned fractionWidth
  omega

/-- **No word overflows** of a layout, unless it has thirty-two bits of exponent and a fraction of three places or
more. -/
theorem overflows_eq_false_iff (ht : t.WellFormed) :
    (∀ raw, t.overflows raw = false) ↔ (t.exponent = 32 → t.mantissa ≤ 3) := by
  have hfits : FitsSigned 32 (1 - narrow t.bias - t.fractionWidth) ↔ (t.exponent = 32 → t.mantissa ≤ 3) := by
    rcases Nat.lt_or_ge 32 t.exponent with hlt | hle
    · exact iff_of_true (fits_of_lt ht hlt) (by omega)
    · rw [fits_iff ht hle]
      omega
  rw [← hfits]
  constructor
  · intro h
    have hzero : t.exponentField 0 = 0 := by simp [exponentField]
    simpa [overflows, hzero] using h 0
  · intro h raw
    simp [overflows, h]

/-- What is computed in thirty-two bits is exact where bias and least power fit them. -/
lemma keepsPowers_of_fits (ht : t.WellFormed) (h : t.exponent ≤ 32)
    (hfits : FitsSigned 32 (1 - narrow t.bias - t.fractionWidth)) (raw : ℕ) : t.KeepsPowers raw := by
  have hvalue : t.compose raw = t.composeBy (t.exactPower raw) raw := by
    rw [compose_eq_composeBy hfits]
    exact composeBy_congr (narrowPower_eq ht h) (by have := ht.exponent; omega)
  refine ⟨.inl (narrow_bias_eq ht h), hfits, fun hnumeric => .inl (narrowPower_eq ht h hnumeric), hvalue,
    fun hnumeric hgreat => ?_, fun hnumeric hsmall => ?_⟩
  · rw [hvalue]
    refine composeBy_eq_infinity (fun hzero => ?_) hnumeric hgreat
    -- the least power is not positive
    have hbias := (bias_bounds ht h).1
    rw [exactPower, if_pos hzero] at hgreat
    omega
  · rw [hvalue]
    exact composeBy_eq_zero hnumeric hsmall

/-- **The powers of all words are kept** by the layouts with less than thirty-two bits of exponent, and by those
with thirty-two whose fraction has at most two places; and by no others. -/
theorem keepsPowers_iff (ht : t.WellFormed) :
    (∀ raw, t.KeepsPowers raw) ↔ t.exponent ≤ 31 ∨ t.exponent = 32 ∧ t.mantissa ≤ 3 := by
  constructor
  · intro h
    have hle : t.exponent ≤ 32 := exponent_le_of_sameSide ht (h 0).bias
    have hplaces := (fits_iff ht hle).mp (h 0).fits
    omega
  · intro h
    have hle : t.exponent ≤ 32 := by omega
    exact keepsPowers_of_fits ht hle ((fits_iff ht hle).mpr (by omega))

/-- Thirty-one bits of exponent and as many of the fraction as there can be. -/
def widestKept : FloatType :=
  { exponent := 31, mantissa := 33, order := .little, alignment := 8 }

/-- Thirty-three bits of exponent and a fraction of one place. -/
def firstLost : FloatType :=
  { exponent := 33, mantissa := 2, order := .little, alignment := 1 }

theorem keepsPowers_iff_widestKept : (∀ raw, widestKept.KeepsPowers raw) ∧
    ¬∀ raw, firstLost.KeepsPowers raw := by
  have hkept : widestKept.WellFormed := ⟨by decide, by decide, by decide, 3, rfl⟩
  have hlost : firstLost.WellFormed := ⟨by decide, by decide, by decide, 0, rfl⟩
  refine ⟨(keepsPowers_iff hkept).mpr (by decide), fun h => ?_⟩
  exact absurd ((keepsPowers_iff hlost).mp h) (by decide)

/-- **A number that no double can represent may become an ordinary one.**  The least number of a layout with
thirty-three bits of exponent is given as two instead of zero, and its greatest, the power of which is
`2 ^ 32 - 1`, is given as one half instead of infinity. -/
theorem not_forall_keepsPowers : firstLost.WellFormed ∧
    firstLost.compose 1 = ⟨0x4000000000000000⟩ ∧
    firstLost.composeBy (firstLost.exactPower 1) 1 = .ofMagnitude false 0 ∧
    firstLost.compose 17179869180 = ⟨0x3FE0000000000000⟩ ∧
    firstLost.composeBy (firstLost.exactPower 17179869180) 17179869180 = .infinity false ∧
    ¬∀ t : FloatType, t.WellFormed → ∀ raw, t.KeepsPowers raw := by
  have hlayout : firstLost.WellFormed := ⟨by decide, by decide, by decide, 0, rfl⟩
  have hother : firstLost.compose 1 ≠ firstLost.composeBy (firstLost.exactPower 1) 1 := by decide +kernel
  refine ⟨hlayout, by decide +kernel, by decide +kernel, by decide +kernel, by decide +kernel, ?_⟩
  exact fun h => hother (h firstLost hlayout 1).value

end FloatType

end CommonTrace
