import CommonTrace.Bit.Cursor
import Mathlib.Algebra.Ring.Nat
import Mathlib.Data.Int.Notation
import Mathlib.Data.List.GetD
import Mathlib.Data.List.Induction
import Mathlib.Data.Nat.Notation
import Mathlib.Tactic.Lemma

/-!
# Bits by position

What a cursor reads is said here bit by bit.  Bit `p` of a region lies in byte `p / 8`, and the byte order
numbers the bits of a byte from its low end or from its high end (`ByteOrder.place`).  A number of `width`
bits that is written at a position takes the positions from there on, a little endian number with its low
bits first, a big endian number with its high bits first (`ByteOrder.bits`).

As a number, what stands at a position is `Cursor.bitsAt`: the number that the touched bytes spell, cut at
both ends.  That both come to the same is `Cursor.bitsAt_of_holds`: the bits of a number are that number.
-/

namespace CommonTrace

lemma twoPow_eq (width : ℕ) : twoPow width = 2 ^ width :=
  Nat.one_shiftLeft width

lemma twoPow_le {m n : ℕ} (h : m ≤ n) : twoPow m ≤ twoPow n := by
  obtain ⟨k, rfl⟩ := Nat.exists_eq_add_of_le h
  rw [twoPow_add]
  exact Nat.le_mul_of_pos_right _ (twoPow_pos k)

/-! ## Alignment -/

/-- The first position from `position` on that is a multiple of `alignment`. -/
def alignUp (alignment position : ℕ) : ℕ :=
  position + (alignment - position % alignment) % alignment

lemma le_alignUp (alignment position : ℕ) : position ≤ alignUp alignment position :=
  Nat.le_add_right _ _

lemma alignUp_of_mod_eq_zero {alignment position : ℕ} (h : position % alignment = 0) :
    alignUp alignment position = position := by
  rw [alignUp, h, Nat.sub_zero, Nat.mod_self, Nat.add_zero]

lemma alignUp_of_mod_ne_zero {alignment position : ℕ} (hpositive : 0 < alignment)
    (h : position % alignment ≠ 0) :
    alignUp alignment position = position + (alignment - position % alignment) := by
  have hlt := Nat.mod_lt position hpositive
  rw [alignUp, Nat.mod_eq_of_lt (by omega)]

lemma alignUp_mod (alignment position : ℕ) (hpositive : 0 < alignment) :
    alignUp alignment position % alignment = 0 := by
  by_cases h : position % alignment = 0
  · rw [alignUp_of_mod_eq_zero h, h]
  · have hlt := Nat.mod_lt position hpositive
    have hsplit := Nat.div_add_mod position alignment
    have hnext : position + (alignment - position % alignment) =
        alignment * (position / alignment + 1) := by
      rw [Nat.mul_add, Nat.mul_one]
      omega
    rw [alignUp_of_mod_ne_zero hpositive h, hnext, Nat.mul_mod_right]

lemma alignUp_of_le_one {alignment : ℕ} (h : alignment ≤ 1) (position : ℕ) :
    alignUp alignment position = position := by
  rw [alignUp]
  rcases Nat.le_one_iff_eq_zero_or_eq_one.mp h with rfl | rfl
  · rw [Nat.zero_sub, Nat.zero_mod, Nat.add_zero]
  · rw [Nat.mod_one, Nat.add_zero]

/-! ## Numbers in bytes -/

namespace ByteOrder

/-- Which bit of its byte a bit of a region is. -/
def place (order : ByteOrder) (position : ℕ) : ℕ :=
  match order with
  | .little => position % 8
  | .big => 7 - position % 8

/-- The low `width` bits of a number, in the order in which they are written. -/
def bits (order : ByteOrder) (width n : ℕ) : List Bool :=
  match order with
  | .little => (List.range width).map n.testBit
  | .big => ((List.range width).map n.testBit).reverse

@[simp] lemma length_bits (order : ByteOrder) (width n : ℕ) : (order.bits width n).length = width := by
  cases order <;> simp [bits]

/-- The position, among those of a number, of one of its bits. -/
def indexOf (order : ByteOrder) (width i : ℕ) : ℕ :=
  match order with
  | .little => i
  | .big => width - 1 - i

lemma getElem?_bits (order : ByteOrder) {width n i : ℕ} (h : i < width) :
    (order.bits width n)[order.indexOf width i]? = some (n.testBit i) := by
  cases order with
  | little => simp [bits, indexOf, h]
  | big =>
    have hback : width - 1 - (width - 1 - i) = i := by omega
    rw [bits, indexOf, List.getElem?_reverse (by simp; omega)]
    simp [hback, h]

/-- A bit of the number that bytes spell with the least byte first. -/
lemma testBit_value_little (bytes : List UInt8) (i : ℕ) :
    (ByteOrder.little.value bytes).testBit i = (bytes.getD (i / 8) 0).toNat.testBit (i % 8) := by
  induction bytes generalizing i with
  | nil => simp
  | cons byte bytes ih =>
    have hsplit : ByteOrder.little.value (byte :: bytes) =
        2 ^ 8 * ByteOrder.little.value bytes + byte.toNat := by
      rw [value_little_cons]
      omega
    rw [hsplit, Nat.testBit_two_pow_mul_add _ byte.toNat_lt]
    split
    · rename_i hlt
      rw [Nat.div_eq_of_lt hlt, Nat.mod_eq_of_lt hlt, List.getD_cons_zero]
    · rename_i hge
      have hdiv : i / 8 = (i - 8) / 8 + 1 := by omega
      have hmod : i % 8 = (i - 8) % 8 := by omega
      rw [ih, hdiv, hmod, List.getD_cons_succ]

/-- A bit of the number that bytes spell with the greatest byte first. -/
lemma testBit_value_big (bytes : List UInt8) {i : ℕ} (h : i < 8 * bytes.length) :
    (ByteOrder.big.value bytes).testBit i =
      (bytes.getD (bytes.length - 1 - i / 8) 0).toNat.testBit (i % 8) := by
  induction bytes using List.reverseRecOn generalizing i with
  | nil => exact absurd h (Nat.not_lt_zero _)
  | append_singleton bytes byte ih =>
    have hsplit : ByteOrder.big.value (bytes ++ [byte]) =
        2 ^ 8 * ByteOrder.big.value bytes + byte.toNat := by
      rw [value_big_concat]
      omega
    rw [List.length_append, List.length_singleton] at h
    rw [hsplit, Nat.testBit_two_pow_mul_add _ byte.toNat_lt, List.length_append,
      List.length_singleton]
    split
    · rename_i hlt
      rw [Nat.div_eq_of_lt hlt, Nat.mod_eq_of_lt hlt]
      simp
    · rename_i hge
      have hlt : i - 8 < 8 * bytes.length := by omega
      have hindex : bytes.length + 1 - 1 - i / 8 = bytes.length - 1 - (i - 8) / 8 := by omega
      have hmod : i % 8 = (i - 8) % 8 := by omega
      rw [ih hlt, hindex, hmod, List.getD_append]
      omega

end ByteOrder

/-! ## Bits of a region -/

namespace Cursor

/-- A bit of a region; behind its end there are zeros. -/
def bitAt (data : ByteArray) (order : ByteOrder) (position : ℕ) : Bool :=
  (data.data.toList.getD (position / 8) 0).toNat.testBit (order.place position)

/-- The region has the given bits from a position on. -/
def Holds (data : ByteArray) (order : ByteOrder) (position : ℕ) (bits : List Bool) : Prop :=
  ∀ i b, bits[i]? = some b → bitAt data order (position + i) = b

variable {data : ByteArray} {order : ByteOrder} {position width : ℕ}

lemma holds_append {first second : List Bool} : Holds data order position (first ++ second) ↔
    Holds data order position first ∧ Holds data order (position + first.length) second := by
  constructor
  · intro h
    constructor
    · intro i b hi
      refine h i b ?_
      rw [List.getElem?_append_left (List.getElem?_eq_some_iff.mp hi).1]
      exact hi
    · intro i b hi
      rw [Nat.add_assoc]
      refine h (first.length + i) b ?_
      rw [List.getElem?_append_right (Nat.le_add_right _ _), Nat.add_sub_cancel_left]
      exact hi
  · rintro ⟨hfirst, hsecond⟩ i b hi
    rcases Nat.lt_or_ge i first.length with hlt | hge
    · rw [List.getElem?_append_left hlt] at hi
      exact hfirst i b hi
    · rw [List.getElem?_append_right hge] at hi
      have hshift := hsecond (i - first.length) b hi
      rwa [Nat.add_assoc, Nat.add_sub_cancel' hge] at hshift

lemma getElem?_toList (data : ByteArray) (i : ℕ) : data.data.toList[i]? = data[i]? := by
  rw [Array.getElem?_toList]
  by_cases h : i < data.size
  · rw [getElem?_pos data i h, getElem?_pos data.data i h]
    rfl
  · rw [getElem?_neg data i h, getElem?_neg data.data i h]

/-- The number held by the `width` bits from bit `position` on.  The bytes that these bits touch spell a
number, and what belongs to other bits is cut away from it at both ends. -/
def bitsAt (data : ByteArray) (position width : ℕ) (order : ByteOrder) : ℕ :=
  let first := position / 8
  let last := (position + width + 7) / 8
  let spelled := order.value (bytesBetween data first last)
  let before := position - 8 * first
  let behind := 8 * last - (position + width)
  match order with
  | .little => spelled / twoPow before % twoPow width
  | .big => spelled / twoPow behind % twoPow width

lemma getD_bytesBetween {start stop i : ℕ} (h : start + i < stop) :
    (bytesBetween data start stop).getD i 0 = data.data.toList.getD (start + i) 0 := by
  unfold bytesBetween
  rw [ByteArray.data_extract, Array.toList_extract, List.extract_eq_take_drop,
    List.getD_eq_getElem?_getD, List.getD_eq_getElem?_getD, List.getElem?_take_of_lt (by omega),
    List.getElem?_drop]

lemma length_bytesBetween {start stop : ℕ} (h : stop ≤ data.size) :
    (bytesBetween data start stop).length = stop - start := by
  unfold bytesBetween
  rw [Array.length_toList, ← ByteArray.size, ByteArray.size_extract, Nat.min_eq_left h]

/-- **A number is read bit by bit.** -/
lemma testBit_bitsAt (h : position + width ≤ 8 * data.size) {i : ℕ} (hi : i < width) :
    (bitsAt data position width order).testBit i =
      bitAt data order (position + order.indexOf width i) := by
  unfold bitsAt bitAt
  cases order with
  | little =>
    have hbyte : position / 8 + (i + (position - 8 * (position / 8))) / 8 = (position + i) / 8 := by
      omega
    have hplace : (i + (position - 8 * (position / 8))) % 8 = (position + i) % 8 := by omega
    dsimp only [ByteOrder.indexOf, ByteOrder.place]
    rw [twoPow_eq, twoPow_eq, Nat.testBit_mod_two_pow, decide_eq_true hi, Bool.true_and,
      Nat.testBit_div_two_pow, ByteOrder.testBit_value_little, getD_bytesBetween (by omega), hbyte,
      hplace]
  | big =>
    have hlength : (bytesBetween data (position / 8) ((position + width + 7) / 8)).length =
        (position + width + 7) / 8 - position / 8 :=
      length_bytesBetween (by omega)
    have hbyte : position / 8 + ((position + width + 7) / 8 - position / 8 - 1 -
        (i + (8 * ((position + width + 7) / 8) - (position + width))) / 8) =
          (position + (width - 1 - i)) / 8 := by
      omega
    have hplace : (i + (8 * ((position + width + 7) / 8) - (position + width))) % 8 =
        7 - (position + (width - 1 - i)) % 8 := by
      omega
    dsimp only [ByteOrder.indexOf, ByteOrder.place]
    rw [twoPow_eq, twoPow_eq, Nat.testBit_mod_two_pow, decide_eq_true hi, Bool.true_and,
      Nat.testBit_div_two_pow, ByteOrder.testBit_value_big _ (by rw [hlength]; omega), hlength,
      getD_bytesBetween (by omega), hbyte, hplace]

lemma bitsAt_lt (data : ByteArray) (position width : ℕ) (order : ByteOrder) :
    bitsAt data position width order < twoPow width := by
  unfold bitsAt
  cases order
  · exact Nat.mod_lt _ (twoPow_pos width)
  · exact Nat.mod_lt _ (twoPow_pos width)

/-- **The bits of a number are read as that number.** -/
theorem bitsAt_of_holds {n : ℕ} (h : Holds data order position (order.bits width n))
    (hdata : position + width ≤ 8 * data.size) (hn : n < twoPow width) :
    bitsAt data position width order = n := by
  have hlt := bitsAt_lt data position width order
  rw [twoPow_eq] at hn hlt
  apply Nat.eq_of_testBit_eq
  intro i
  rcases Nat.lt_or_ge i width with hi | hi
  · rw [testBit_bitsAt hdata hi]
    exact h _ _ (order.getElem?_bits hi)
  · have hpow : 2 ^ width ≤ 2 ^ i := Nat.pow_le_pow_right (by decide) hi
    rw [Nat.testBit_lt_two_pow (Nat.lt_of_lt_of_le hlt hpow),
      Nat.testBit_lt_two_pow (Nat.lt_of_lt_of_le hn hpow)]

end Cursor

/-! ## Two's complement -/

section Signed

variable {width : ℕ} (hwidth : 0 < width) (hwidth' : width ≤ 64)

include hwidth hwidth'

lemma signExtend_eq_bmod (raw : ℕ) : signExtend raw width = Int.bmod raw (twoPow width) := by
  unfold signExtend
  split
  · obtain rfl : width = 64 := by omega
    rfl
  · rfl

/-- The top bit counts as negative. -/
lemma signExtend_eq_ite {raw : ℕ} (h : raw < twoPow width) :
    signExtend raw width = if raw.testBit (width - 1) then (raw : ℤ) - twoPow width else raw := by
  have hsucc : twoPow width = 2 * twoPow (width - 1) := by
    rw [← twoPow_succ, Nat.sub_add_cancel hwidth]
  rw [signExtend_eq_bmod hwidth hwidth']
  rcases Nat.lt_or_ge raw (twoPow (width - 1)) with hlow | hhigh
  · have htop : raw.testBit (width - 1) = false := Nat.testBit_lt_two_pow (twoPow_eq _ ▸ hlow)
    rw [htop, if_neg Bool.false_ne_true]
    apply Int.bmod_eq_of_le <;> omega
  · have htop : raw.testBit (width - 1) = true := by
      rw [Nat.testBit_eq_decide_div_mod_eq, ← twoPow_eq]
      have hquotient : raw / twoPow (width - 1) = 1 := by
        apply Nat.div_eq_of_lt_le <;> omega
      rw [hquotient]
      rfl
    rw [htop, if_pos rfl, ← Int.sub_bmod_right]
    apply Int.bmod_eq_of_le <;> omega

lemma signExtend_bounds (raw : ℕ) :
    -twoPow (width - 1) ≤ signExtend raw width ∧ signExtend raw width ≤ twoPow (width - 1) - 1 := by
  have hsucc : twoPow width = 2 * twoPow (width - 1) := by
    rw [← twoPow_succ, Nat.sub_add_cancel hwidth]
  have hlow := Int.le_bmod (x := raw) (twoPow_pos width)
  have hhigh := Int.bmod_lt (x := raw) (twoPow_pos width)
  rw [signExtend_eq_bmod hwidth hwidth']
  omega

/-- Sign extension keeps the bits. -/
lemma signExtend_emod {raw : ℕ} (h : raw < twoPow width) :
    signExtend raw width % (twoPow width : ℤ) = raw := by
  rw [signExtend_eq_bmod hwidth hwidth', Int.bmod_emod]
  exact Int.emod_eq_of_lt (Int.natCast_nonneg raw) (Int.ofNat_lt.mpr h)

/-- **Two's complement**: an integer in the range is what its low bits stand for. -/
lemma signExtend_of_emod {n : ℤ} (hlow : -twoPow (width - 1) ≤ n) (hhigh : n ≤ twoPow (width - 1) - 1) :
    signExtend (n % (twoPow width : ℤ)).toNat width = n := by
  have hsucc : twoPow width = 2 * twoPow (width - 1) := by
    rw [← twoPow_succ, Nat.sub_add_cancel hwidth]
  have hpos := twoPow_pos width
  have hnonneg := Int.emod_nonneg n (b := (twoPow width : ℤ)) (by omega)
  rw [signExtend_eq_bmod hwidth hwidth', Int.toNat_of_nonneg hnonneg, Int.emod_bmod]
  apply Int.bmod_eq_of_le <;> omega

end Signed

end CommonTrace
