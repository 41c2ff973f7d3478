import CommonTrace.Proofs.Bit.Positional

/-!
# How words are put together

A cursor puts an integer together in a word of sixty-four bits, byte by byte where the integer consists of
whole bytes and otherwise in chunks, each as many bits as a byte has to give.  For each of these ways it is
said which bit of the region every bit of the word is: for the loops by induction on the bytes that are left,
with the bits that are already there carried along.  That all of them agree, `Cursor.toNat_wordAt`, follows
bit by bit; in particular nothing that is shifted out of the word was needed.

The sign of an integer is spread over the word by shifting it up to the top and back
(`Cursor.toInt_repeatSign`).
-/

namespace CommonTrace

namespace Cursor

/-! ## One byte -/

lemma getLsbD_lowMask {bits i : ℕ} (hi : i < 8) : (lowMask bits).getLsbD i = decide (i < bits) := by
  have hfull : ∀ i < 8, (0xFF#8).getLsbD i = true := by decide
  have hpart : ∀ bits < 8, ∀ i < 8, ((1#8 <<< bits) - 1#8).getLsbD i = decide (i < bits) := by decide
  unfold lowMask
  split
  · rw [hfull i hi, decide_eq_true (by omega)]
  · exact hpart bits (by omega) i hi

/-- **The bits of a chunk** are those of the byte above the ones left behind. -/
lemma getLsbD_chunk (byte : UInt8) {behind take : ℕ} (h : behind + take ≤ 8) (i : ℕ) :
    (chunk byte behind take).getLsbD i = (decide (i < take) && byte.toNat.testBit (behind + i)) := by
  rw [chunk, BitVec.getLsbD_setWidth, BitVec.getLsbD_and, BitVec.getLsbD_ushiftRight]
  by_cases hi : i < take
  · rw [getLsbD_lowMask (by omega), decide_eq_true hi, decide_eq_true (by omega), Bool.true_and,
      Bool.and_true, Bool.true_and]
    rfl
  · rcases Nat.lt_or_ge i 8 with h8 | h8
    · rw [getLsbD_lowMask h8, decide_eq_false hi, Bool.and_false, Bool.and_false, Bool.false_and]
    · rw [BitVec.getLsbD_of_ge (lowMask take) i h8, decide_eq_false hi, Bool.and_false, Bool.and_false,
        Bool.false_and]

lemma chunk_whole (byte : UInt8) : chunk byte 0 8 = byte.toBitVec.setWidth 64 := by
  have hmask : lowMask 8 = BitVec.allOnes 8 := rfl
  rw [chunk, BitVec.ushiftRight_zero, hmask, BitVec.and_allOnes]

/-! ## Several bytes -/

/-- **The bits that the little endian loop gathers.**  Those below `shift` stay as they are. -/
lemma getLsbD_gatherLittle {bytes : List UInt8} {value : BitVec 64} {shift offset left : ℕ}
    (hvalue : ∀ i, shift ≤ i → value.getLsbD i = false) (hoffset : offset < 8)
    (hbytes : offset + left ≤ 8 * bytes.length) (hword : shift + left ≤ 64) (i : ℕ) :
    (gatherLittle value shift offset left bytes).getLsbD i =
      if i < shift then value.getLsbD i
      else decide (i < shift + left) &&
        (bytes.getD ((offset + (i - shift)) / 8) 0).toNat.testBit ((offset + (i - shift)) % 8) := by
  induction bytes generalizing value shift offset left with
  | nil =>
    rw [List.length_nil] at hbytes
    split
    · rfl
    · rw [gatherLittle, hvalue i (by omega), decide_eq_false (by omega), Bool.false_and]
  | cons byte bytes ih =>
    rw [List.length_cons] at hbytes
    rw [gatherLittle]
    obtain ⟨take, htake⟩ : ∃ take, take = min left (8 - offset) := ⟨_, rfl⟩
    rw [← htake]
    have hbit (j : ℕ) : (value ||| chunk byte offset take <<< shift).getLsbD j =
        (value.getLsbD j || (decide (j < 64) && !decide (j < shift) &&
          (decide (j - shift < take) && byte.toNat.testBit (offset + (j - shift))))) := by
      rw [BitVec.getLsbD_or, BitVec.getLsbD_shiftLeft, getLsbD_chunk byte (by omega)]
    rw [ih (fun j hj => by rw [hbit, hvalue j (by omega)]; simp; omega) (by decide) (by omega)
      (by omega), hbit]
    by_cases hbelow : i < shift
    · -- a bit that was there before
      rw [if_pos (by omega), if_pos hbelow, decide_eq_true hbelow]
      simp
    · rw [if_neg hbelow]
      by_cases hhere : i < shift + take
      · -- a bit of this byte
        have hdiv : (offset + (i - shift)) / 8 = 0 := by omega
        have hmod : (offset + (i - shift)) % 8 = offset + (i - shift) := by omega
        have hword : i < 64 := by omega
        have hchunk : i - shift < take := by omega
        have hall : i < shift + left := by omega
        rw [if_pos hhere, hvalue i (by omega), hdiv, hmod, List.getD_cons_zero]
        simp [hword, hbelow, hchunk, hall]
      · -- a bit of a later byte, of which there is one only if this byte has been used up
        rw [if_neg hhere]
        by_cases hlater : i < shift + left
        · have hdiv : (offset + (i - shift)) / 8 = (0 + (i - (shift + take))) / 8 + 1 := by omega
          have hmod : (offset + (i - shift)) % 8 = (0 + (i - (shift + take))) % 8 := by omega
          rw [hdiv, hmod, List.getD_cons_succ, decide_eq_true hlater, decide_eq_true (by omega)]
        · rw [decide_eq_false hlater, decide_eq_false (by omega), Bool.false_and, Bool.false_and]

/-- **The bits that the big endian loop gathers.**  They push those that were there upwards. -/
lemma getLsbD_gatherBig {bytes : List UInt8} {value : BitVec 64} {offset left : ℕ} (hoffset : offset < 8)
    (hbytes : offset + left ≤ 8 * bytes.length) {i : ℕ} (hi : i < 64) :
    (gatherBig value offset left bytes).getLsbD i =
      if i < left then (bytes.getD ((offset + (left - 1 - i)) / 8) 0).toNat.testBit
        (7 - (offset + (left - 1 - i)) % 8)
      else value.getLsbD (i - left) := by
  induction bytes generalizing value offset left with
  | nil =>
    rw [List.length_nil] at hbytes
    have hleft : left = 0 := by omega
    rw [gatherBig, hleft, if_neg (by omega), Nat.sub_zero]
  | cons byte bytes ih =>
    rw [List.length_cons] at hbytes
    rw [gatherBig]
    obtain ⟨take, htake⟩ : ∃ take, take = min left (8 - offset) := ⟨_, rfl⟩
    rw [← htake]
    rw [ih (by decide) (by omega), BitVec.getLsbD_or, BitVec.getLsbD_shiftLeft,
      getLsbD_chunk byte (by omega)]
    by_cases hlater : i < left - take
    · -- a bit of a later byte
      have hdiv : (offset + (left - 1 - i)) / 8 = (0 + (left - take - 1 - i)) / 8 + 1 := by omega
      have hmod : (offset + (left - 1 - i)) % 8 = (0 + (left - take - 1 - i)) % 8 := by omega
      rw [if_pos hlater, if_pos (by omega), hdiv, hmod, List.getD_cons_succ]
    · rw [if_neg hlater]
      by_cases hhere : i < left
      · -- a bit of this byte
        have hdiv : (offset + (left - 1 - i)) / 8 = 0 := by omega
        have hplace : 8 - offset - take + (i - (left - take)) = 7 - (offset + (left - 1 - i)) % 8 := by
          omega
        have hchunk : i - (left - take) < take := by omega
        rw [if_pos hhere, hdiv, List.getD_cons_zero, ← hplace]
        simp [hchunk]
      · -- a bit that was there before
        have hback : i - (left - take) - take = i - left := by omega
        have hword : i - (left - take) < 64 := by omega
        have hchunk : ¬i - (left - take) < take := by omega
        rw [if_neg hhere, hback]
        simp [hword, hchunk]

lemma wholeBytes_big_eq (bytes : List UInt8) :
    wholeBytes .big bytes = gatherBig 0#64 0 (8 * bytes.length) bytes := by
  unfold wholeBytes
  generalize 0#64 = value
  induction bytes generalizing value with
  | nil => rfl
  | cons byte bytes ih =>
    have htake : min (8 * (bytes.length + 1)) (8 - 0) = 8 := by omega
    have hleft : 8 * (bytes.length + 1) - 8 = 8 * bytes.length := by omega
    rw [List.foldl_cons, ih, List.length_cons, gatherBig]
    simp only [htake, hleft, Nat.sub_zero, Nat.sub_self, chunk_whole]

lemma getLsbD_wholeBytes_little (bytes : List UInt8) {i : ℕ} (hi : i < 64) :
    (wholeBytes .little bytes).getLsbD i = (bytes.getD (i / 8) 0).toNat.testBit (i % 8) := by
  induction bytes generalizing i with
  | nil => simp [wholeBytes]
  | cons byte bytes ih =>
    have hstep : wholeBytes .little (byte :: bytes) =
        (wholeBytes .little bytes <<< 8) ||| byte.toBitVec.setWidth 64 := rfl
    rw [hstep, ← chunk_whole, BitVec.getLsbD_or, BitVec.getLsbD_shiftLeft, getLsbD_chunk byte (by decide)]
    by_cases h8 : i < 8
    · rw [Nat.div_eq_of_lt h8, Nat.mod_eq_of_lt h8, List.getD_cons_zero]
      simp [h8]
    · have hdiv : i / 8 = (i - 8) / 8 + 1 := by omega
      have hmod : i % 8 = (i - 8) % 8 := by omega
      rw [ih (by omega), hdiv, hmod, List.getD_cons_succ]
      simp [h8, hi]

/-- **Whole bytes need no loop over chunks**: both ways lead to the same word. -/
lemma wholeBytes_little_eq {bytes : List UInt8} (h : bytes.length ≤ 8) :
    wholeBytes .little bytes = gatherLittle 0#64 0 0 (8 * bytes.length) bytes := by
  apply BitVec.eq_of_getLsbD_eq
  intro i hi
  rw [getLsbD_wholeBytes_little bytes hi,
    getLsbD_gatherLittle (fun _ _ => BitVec.getLsbD_zero) (by decide) (by omega) (by omega),
    if_neg (Nat.not_lt_zero i), Nat.sub_zero, Nat.zero_add, Nat.zero_add]
  by_cases hin : i < 8 * bytes.length
  · rw [decide_eq_true hin, Bool.true_and]
  · rw [decide_eq_false hin, Bool.false_and, List.getD_eq_default _ _ (by omega)]
    exact Nat.zero_testBit _

/-! ## The word at a position -/

variable {data : ByteArray} {order : ByteOrder} {position width : ℕ}

lemma wordAt_eq (hwidth : width ≤ 64) (hdata : position + width ≤ 8 * data.size) :
    wordAt data position width order =
      match order with
      | .big => gatherBig 0#64 (position % 8) width
          (bytesBetween data (position / 8) ((position + width + 7) / 8))
      | .little => gatherLittle 0#64 0 (position % 8) width
          (bytesBetween data (position / 8) ((position + width + 7) / 8)) := by
  have hlength : (bytesBetween data (position / 8) ((position + width + 7) / 8)).length =
      (position + width + 7) / 8 - position / 8 :=
    length_bytesBetween (by omega)
  unfold wordAt
  dsimp only
  split
  · rename_i hwhole
    have hcount : 8 * (bytesBetween data (position / 8) ((position + width + 7) / 8)).length = width := by
      omega
    rw [hwhole.1]
    cases order with
    | big => rw [wholeBytes_big_eq, hcount]
    | little => rw [wholeBytes_little_eq (by omega), hcount]
  · rfl

/-- **Every bit of the word at a position**, whichever way the word is put together. -/
lemma getLsbD_wordAt (hwidth : width ≤ 64) (hdata : position + width ≤ 8 * data.size) (i : ℕ) :
    (wordAt data position width order).getLsbD i =
      (decide (i < width) && bitAt data order (position + order.indexOf width i)) := by
  have hlength : (bytesBetween data (position / 8) ((position + width + 7) / 8)).length =
      (position + width + 7) / 8 - position / 8 :=
    length_bytesBetween (by omega)
  rw [wordAt_eq hwidth hdata]
  by_cases hi : i < width
  · rw [decide_eq_true hi, Bool.true_and]
    cases order with
    | big =>
      have hbyte : position / 8 + (position % 8 + (width - 1 - i)) / 8 =
          (position + (width - 1 - i)) / 8 := by
        omega
      have hplace : (position % 8 + (width - 1 - i)) % 8 = (position + (width - 1 - i)) % 8 := by omega
      rw [getLsbD_gatherBig (by omega) (by omega) (by omega), if_pos hi, getD_bytesBetween (by omega),
        hbyte, hplace]
      rfl
    | little =>
      have hbyte : position / 8 + (position % 8 + i) / 8 = (position + i) / 8 := by omega
      have hplace : (position % 8 + i) % 8 = (position + i) % 8 := by omega
      dsimp only
      rw [getLsbD_gatherLittle (fun _ _ => BitVec.getLsbD_zero) (by omega) (by omega) (by omega),
        if_neg (Nat.not_lt_zero i), decide_eq_true (by omega), Bool.true_and, Nat.sub_zero,
        getD_bytesBetween (by omega), hbyte, hplace]
      rfl
  · rw [decide_eq_false hi, Bool.false_and]
    rcases Nat.lt_or_ge i 64 with h64 | h64
    · cases order with
      | big =>
        rw [getLsbD_gatherBig (by omega) (by omega) h64, if_neg hi, BitVec.getLsbD_zero]
      | little =>
        dsimp only
        rw [getLsbD_gatherLittle (fun _ _ => BitVec.getLsbD_zero) (by omega) (by omega) (by omega),
          if_neg (Nat.not_lt_zero i), decide_eq_false (by omega), Bool.false_and]
    · exact BitVec.getLsbD_of_ge _ i h64

/-- **The word at a position is the number that stands there.** -/
lemma toNat_wordAt (hwidth : width ≤ 64) (hdata : position + width ≤ 8 * data.size) :
    (wordAt data position width order).toNat = bitsAt data position width order := by
  have hlt := bitsAt_lt data position width order
  rw [twoPow_eq] at hlt
  apply Nat.eq_of_testBit_eq
  intro i
  rw [BitVec.testBit_toNat, getLsbD_wordAt hwidth hdata]
  rcases Nat.lt_or_ge i width with hi | hi
  · rw [decide_eq_true hi, Bool.true_and, testBit_bitsAt hdata hi]
  · have hpow : 2 ^ width ≤ 2 ^ i := Nat.pow_le_pow_right (by decide) hi
    rw [decide_eq_false (by omega), Bool.false_and, Nat.testBit_lt_two_pow (Nat.lt_of_lt_of_le hlt hpow)]

/-! ## Signs -/

/-- **Shifting up and back again is reading two's complement.** -/
lemma toInt_repeatSign (raw : BitVec 64) (hpositive : 0 < width) :
    (repeatSign raw width).toInt = signExtend raw.toNat width := by
  unfold repeatSign signExtend
  split
  · exact BitVec.toInt_eq_toNat_bmod raw
  · have hsplit : 2 ^ 64 = 2 ^ (64 - width) * twoPow width := by
      rw [twoPow_eq, ← Nat.pow_add, Nat.sub_add_cancel (by omega)]
    have heven : 2 ∣ twoPow width := by
      rw [← Nat.sub_add_cancel hpositive, twoPow_succ]
      exact Nat.dvd_mul_right 2 _
    have hpos : 0 < 2 ^ (64 - width) := Nat.two_pow_pos _
    rw [BitVec.toInt_sshiftRight, BitVec.toInt_shiftLeft, Nat.shiftLeft_eq, Nat.mul_comm, Int.natCast_mul,
      hsplit, Int.mod_bmod_mul_of_pos _ _ hpos heven, Int.shiftRight_eq_div_pow,
      Int.mul_ediv_cancel_left _ (by omega)]

end Cursor

end CommonTrace
