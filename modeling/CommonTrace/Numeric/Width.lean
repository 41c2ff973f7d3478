/-!
# Numbers of a given width

`width` bits have `twoPow width` values.  They are the natural numbers below that or, in two's
complement, the integers from the negative of half of it on.
-/

namespace CommonTrace

/-- The number of values of `width` bits, which is a power of two. -/
def twoPow (width : Nat) : Nat :=
  1 <<< width

@[simp] theorem twoPow_zero : twoPow 0 = 1 := rfl

theorem twoPow_succ (width : Nat) : twoPow (width + 1) = 2 * twoPow width := by
  simp only [twoPow, Nat.shiftLeft_succ]

theorem twoPow_add (m n : Nat) : twoPow (m + n) = twoPow m * twoPow n := by
  induction n with
  | zero => simp
  | succ n ih => rw [Nat.add_succ, twoPow_succ, ih, twoPow_succ, Nat.mul_left_comm]

theorem twoPow_pos (width : Nat) : 0 < twoPow width := by
  induction width with
  | zero => decide
  | succ width ih => rw [twoPow_succ]; omega

/-- Whether an integer is a natural number of `width` bits. -/
def FitsUnsigned (width : Nat) (n : Int) : Prop :=
  0 ≤ n ∧ n < twoPow width

/-- Whether an integer has a two's complement form of `width` bits. -/
def FitsSigned (width : Nat) (n : Int) : Prop :=
  -twoPow (width - 1) ≤ n ∧ n < twoPow (width - 1)

instance (width : Nat) (n : Int) : Decidable (FitsUnsigned width n) :=
  inferInstanceAs (Decidable (_ ∧ _))

instance (width : Nat) (n : Int) : Decidable (FitsSigned width n) :=
  inferInstanceAs (Decidable (_ ∧ _))

end CommonTrace
