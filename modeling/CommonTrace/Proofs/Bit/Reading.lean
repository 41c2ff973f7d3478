import CommonTrace.Proofs.Bit.Words

/-!
# What reads give

For each way of moving a cursor it is said here what it gives and where the cursor stands afterwards, once
for a read that has succeeded (`Cursor.of_readUnsigned_ok` and its like) and once for bits that are known
to be there (`Cursor.exists_readUnsigned` and its like).  Nothing else about reading is needed to know what
a decoding reads.
-/

namespace CommonTrace

namespace Cursor

variable {c c' : Cursor}

/-- The other cursor stands in the same data with the same limit, at the given bit. -/
structure MovedTo (c : Cursor) (position : ℕ) (c' : Cursor) : Prop where
  data : c'.data = c.data
  limit : c'.limit = c.limit
  position : c'.position = position

/-- One move after another. -/
lemma MovedTo.add {c c₁ c₂ : Cursor} {m n : ℕ} (h₁ : c.MovedTo (c.position + m) c₁)
    (h₂ : c₁.MovedTo (c₁.position + n) c₂) : c.MovedTo (c.position + (m + n)) c₂ where
  data := h₂.data.trans h₁.data
  limit := h₂.limit.trans h₁.limit
  position := by rw [h₂.position, h₁.position, Nat.add_assoc]

lemma MovedTo.eq {c₁ c₂ : Cursor} {position : ℕ} (h₁ : c.MovedTo position c₁) (h₂ : c.MovedTo position c₂) :
    c₁ = c₂ := by
  have hdata := h₁.data.trans h₂.data.symm
  have hlimit := h₁.limit.trans h₂.limit.symm
  have hposition := h₁.position.trans h₂.position.symm
  cases c₁
  cases c₂
  cases hdata
  cases hlimit
  cases hposition
  rfl

/-- A cursor never gets behind the end of its data. -/
lemma MovedTo.le_size {position : ℕ} (h : c.MovedTo position c') : position ≤ 8 * c.data.size := by
  rw [← h.position, ← h.data]
  exact Nat.le_trans c'.position_le c'.limit_le

/-! ## Skipping and aligning -/

/-- The bits that are left lie in the region. -/
lemma le_size_of_le_remaining {bits : ℕ} (h : bits ≤ c.remaining) :
    c.position + bits ≤ 8 * c.data.size := by
  have hposition := c.position_le
  have hlimit := c.limit_le
  unfold remaining at h
  omega

lemma of_skip_ok {bits : ℕ} {requested : Option ℕ} (h : c.skip bits requested = .ok c') :
    c.MovedTo (c.position + bits) c' := by
  unfold skip at h
  split at h
  · cases h
    exact ⟨rfl, rfl, rfl⟩
  · cases h

lemma exists_skip {bits : ℕ} (requested : Option ℕ) (h : c.position + bits ≤ c.limit) :
    ∃ c', c.skip bits requested = .ok c' ∧ c.MovedTo (c.position + bits) c' := by
  have hremaining : bits ≤ c.remaining := by
    unfold remaining
    omega
  exact ⟨c.advance bits hremaining, dif_pos hremaining, rfl, rfl, rfl⟩

lemma alignUp_of_stays {alignment position : ℕ} (h : alignment ≤ 1 ∨ position % alignment = 0) :
    alignUp alignment position = position := by
  rcases h with hle | hmod
  · exact alignUp_of_le_one hle position
  · exact alignUp_of_mod_eq_zero hmod

/-- Aligning goes to the next multiple of the alignment. -/
lemma of_align_ok {alignment : ℕ} (h : c.align alignment = .ok c') :
    c.MovedTo (alignUp alignment c.position) c' := by
  unfold align at h
  split at h
  · rename_i hstays
    cases h
    exact ⟨rfl, rfl, (alignUp_of_stays hstays).symm⟩
  · rename_i hmoves
    obtain ⟨hgt, hmod⟩ := not_or.mp hmoves
    rw [alignUp_of_mod_ne_zero (by omega) hmod]
    exact of_skip_ok h

lemma exists_align {alignment : ℕ} (h : alignUp alignment c.position ≤ c.limit) :
    ∃ c', c.align alignment = .ok c' ∧ c.MovedTo (alignUp alignment c.position) c' := by
  unfold align
  split
  · rename_i hstays
    exact ⟨c, rfl, rfl, rfl, (alignUp_of_stays hstays).symm⟩
  · rename_i hmoves
    obtain ⟨hgt, hmod⟩ := not_or.mp hmoves
    rw [alignUp_of_mod_ne_zero (by omega) hmod] at h ⊢
    exact exists_skip _ h

lemma of_seek_ok {target : ℕ} (h : c.seek target = .ok c') : c.MovedTo target c' := by
  unfold seek at h
  split at h
  · cases h
    exact ⟨rfl, rfl, rfl⟩
  · cases h

/-! ## Integers -/

section Integers

variable {width : ℕ} {order : ByteOrder}

lemma of_readUnsigned_ok {n : ℕ} (h : c.readUnsigned width order = .ok (n, c')) :
    0 < width ∧ width ≤ 64 ∧ n = bitsAt c.data c.position width order ∧
      c.MovedTo (c.position + width) c' := by
  unfold readUnsigned at h
  split at h
  · cases h
  · rename_i hwidth
    cases hskip : c.skip width with
    | error => rw [hskip] at h; cases h
    | ok next =>
      rw [hskip] at h
      cases h
      have hmoved := of_skip_ok hskip
      exact ⟨by omega, by omega, toNat_wordAt (by omega) hmoved.le_size, hmoved⟩

lemma exists_readUnsigned (order : ByteOrder) (hpositive : 0 < width) (hwidth : width ≤ 64)
    (h : c.position + width ≤ c.limit) :
    ∃ c', c.readUnsigned width order = .ok (bitsAt c.data c.position width order, c') ∧
      c.MovedTo (c.position + width) c' := by
  obtain ⟨c', hskip, hmoved⟩ := exists_skip (some width) h
  refine ⟨c', ?_, hmoved⟩
  rw [readUnsigned, if_neg (by omega), hskip, ← toNat_wordAt hwidth hmoved.le_size]
  rfl

lemma of_readSigned_ok {n : ℤ} (h : c.readSigned width order = .ok (n, c')) :
    0 < width ∧ width ≤ 64 ∧ n = signExtend (bitsAt c.data c.position width order) width ∧
      c.MovedTo (c.position + width) c' := by
  unfold readSigned at h
  cases hread : c.readUnsigned width order with
  | error => rw [hread] at h; cases h
  | ok pair =>
    obtain ⟨raw, next⟩ := pair
    rw [hread] at h
    cases h
    obtain ⟨hpositive, hwidth, rfl, hmoved⟩ := of_readUnsigned_ok hread
    refine ⟨hpositive, hwidth, ?_, hmoved⟩
    rw [← toNat_wordAt hwidth hmoved.le_size, BitVec.ofNat_toNat, BitVec.setWidth_eq,
      toInt_repeatSign _ hpositive]

lemma exists_readSigned (order : ByteOrder) (hpositive : 0 < width) (hwidth : width ≤ 64)
    (h : c.position + width ≤ c.limit) :
    ∃ c', c.readSigned width order =
        .ok (signExtend (bitsAt c.data c.position width order) width, c') ∧
      c.MovedTo (c.position + width) c' := by
  obtain ⟨c', hread, hmoved⟩ := exists_readUnsigned order hpositive hwidth h
  refine ⟨c', ?_, hmoved⟩
  rw [← toNat_wordAt hwidth hmoved.le_size] at hread ⊢
  rw [readSigned, hread, ← toInt_repeatSign _ hpositive]
  dsimp only [bind, Except.bind, pure, Except.pure]
  rw [BitVec.ofNat_toNat, BitVec.setWidth_eq]

/-- **Every integer is read bit by bit as the byte order says**, whichever way the cursor puts it together:
a little endian integer has the bits of its bytes from the low end on and its own low bits first, a big
endian integer has them from the high end on and its own high bits first, and there is nothing above its
`width` bits.  Read as signed, the top one of these bits counts as negative. -/
theorem exists_read_bitwise (c : Cursor) (order : ByteOrder) (hpositive : 1 ≤ width) (hwidth : width ≤ 64)
    (h : c.position + width ≤ c.limit) :
    ∃ (n : ℕ) (m : ℤ) (next : Cursor),
      c.readUnsigned width order = .ok (n, next) ∧ c.readSigned width order = .ok (m, next) ∧
      c.MovedTo (c.position + width) next ∧
      (∀ i < width, ∃ byte, c.data[(c.position + i) / 8]? = some byte ∧
        n.testBit (order.indexOf width i) = byte.toNat.testBit (order.place (c.position + i))) ∧
      (∀ i, width ≤ i → n.testBit i = false) ∧
      m = if n.testBit (width - 1) then (n : ℤ) - twoPow width else n := by
  obtain ⟨next, hunsigned, hmoved⟩ := exists_readUnsigned order hpositive hwidth h
  obtain ⟨next', hsigned, hmoved'⟩ := exists_readSigned order hpositive hwidth h
  have hsame : next' = next := hmoved'.eq hmoved
  have hdata := hmoved.le_size
  have hlt := bitsAt_lt c.data c.position width order
  refine ⟨_, _, next, hunsigned, hsame ▸ hsigned, hmoved, ?_, ?_, ?_⟩
  · intro i hi
    have hbyte : (c.position + i) / 8 < c.data.size := by omega
    have hindex : order.indexOf width i < width := by cases order <;> dsimp only [ByteOrder.indexOf] <;> omega
    have hback : order.indexOf width (order.indexOf width i) = i := by
      cases order <;> dsimp only [ByteOrder.indexOf]
      omega
    refine ⟨c.data[(c.position + i) / 8], getElem?_pos c.data _ hbyte, ?_⟩
    rw [testBit_bitsAt hdata hindex, hback, bitAt, List.getD_eq_getElem?_getD, getElem?_toList,
      getElem?_pos c.data _ hbyte, Option.getD_some]
  · intro i hi
    have hpow : twoPow width ≤ twoPow i := twoPow_le hi
    exact Nat.testBit_lt_two_pow (twoPow_eq i ▸ Nat.lt_of_lt_of_le hlt hpow)
  · exact signExtend_eq_ite hpositive hwidth hlt

section Example

/-- Nine bytes, read from the fourth bit on. -/
def insideNineBytes : Cursor where
  data := ⟨#[0x17, 0x2A, 0x00, 0xFF, 0x81, 0x5C, 0x03, 0xE0, 0x9D]⟩
  limit := 72
  position := 3
  limit_le := by decide
  position_le := by decide

/-- An integer of the full width that touches nine bytes is read bit by bit. -/
theorem exists_read_bitwise_insideNineBytes :
    ∃ (n : ℕ) (m : ℤ) (next : Cursor),
      insideNineBytes.readUnsigned 64 .big = .ok (n, next) ∧
      insideNineBytes.readSigned 64 .big = .ok (m, next) ∧ next.position = 67 ∧
      n.testBit 63 = true ∧ m = n - twoPow 64 := by
  obtain ⟨n, m, next, hunsigned, hsigned, hmoved, hbits, -, htwos⟩ :=
    exists_read_bitwise insideNineBytes .big (by decide : 1 ≤ 64) (by decide) (by decide)
  obtain ⟨byte, hbyte, htop⟩ := hbits 0 (by decide)
  have hfirst : insideNineBytes.data[(insideNineBytes.position + 0) / 8]? = some 0x17 := by decide
  obtain rfl : byte = 0x17 := Option.some.inj (hbyte.symm.trans hfirst)
  have hset : n.testBit 63 = true := htop
  refine ⟨n, m, next, hunsigned, hsigned, hmoved.position, hset, ?_⟩
  rw [htwos, hset, if_pos rfl]

end Example

end Integers

/-! ## Whole bytes -/

section Bytes

variable {data : ByteArray}

lemma getElem?_bytesBetween {start stop i : ℕ} :
    (bytesBetween data start stop)[i]? = if start + i < stop then data[start + i]? else none := by
  unfold bytesBetween
  rw [ByteArray.data_extract, Array.toList_extract, List.extract_eq_take_drop, List.getElem?_take,
    List.getElem?_drop, getElem?_toList]
  have hsame : i < stop - start ↔ start + i < stop := by omega
  simp only [hsame]

lemma bytesBetween_eq_nil {start stop : ℕ} (h : stop ≤ start) : bytesBetween data start stop = [] := by
  apply List.ext_getElem?
  intro i
  rw [getElem?_bytesBetween, if_neg (by omega), List.getElem?_nil]

lemma bytesBetween_eq_cons {start stop : ℕ} {byte : UInt8} (h : start < stop)
    (hbyte : data[start]? = some byte) :
    bytesBetween data start stop = byte :: bytesBetween data (start + 1) stop := by
  apply List.ext_getElem?
  intro i
  rw [getElem?_bytesBetween]
  cases i with
  | zero => rw [if_pos (by omega), Nat.add_zero, hbyte, List.getElem?_cons_zero]
  | succ i =>
    rw [List.getElem?_cons_succ, getElem?_bytesBetween, Nat.add_right_comm start 1 i, Nat.add_assoc]

lemma take_bytesBetween {start stop count : ℕ} (h : start + count ≤ stop) :
    (bytesBetween data start stop).take count = bytesBetween data start (start + count) := by
  apply List.ext_getElem?
  intro i
  simp only [List.getElem?_take, getElem?_bytesBetween]
  by_cases hi : i < count
  · simp [hi, show start + i < stop by omega]
  · simp [hi]

/-- Looking at one byte after the other for a zero byte is looking for it in a slice. -/
lemma runLength?_eq_findIdx? {start count : ℕ} (h : start + count ≤ data.size) :
    runLength? data start count =
      (bytesBetween data start (start + count)).findIdx? (· == 0) := by
  induction count generalizing start with
  | zero =>
    rw [Nat.add_zero, bytesBetween_eq_nil (Nat.le_refl start)]
    rfl
  | succ count ih =>
    have hindex : start < data.size := by omega
    have hsame : start + (count + 1) = start + 1 + count := by omega
    rw [runLength?, getElem?_pos data start hindex,
      bytesBetween_eq_cons (by omega) (getElem?_pos data start hindex), List.findIdx?_cons,
      hsame, ih (by omega)]
    simp only [beq_iff_eq]

/-- The bytes before the first zero byte. -/
lemma of_runLength? {start count length : ℕ} (h : runLength? data start count = some length) :
    length < count ∧ 0 ∉ bytesBetween data start (start + length) ∧
      data[start + length]? = some 0 := by
  induction count generalizing start length with
  | zero => cases h
  | succ count ih =>
    rw [runLength?] at h
    cases hbyte : data[start]? with
    | none => rw [hbyte] at h; cases h
    | some byte =>
      rw [hbyte] at h
      dsimp only at h
      split at h
      · rename_i hzero
        cases h
        refine ⟨Nat.succ_pos _, ?_, hzero ▸ hbyte⟩
        rw [bytesBetween_eq_nil (Nat.le_of_eq (Nat.add_zero start))]
        exact List.not_mem_nil
      · rename_i hzero
        obtain ⟨rest, hrest, rfl⟩ := Option.map_eq_some_iff.mp h
        obtain ⟨hlt, hfree, hend⟩ := ih hrest
        rw [Nat.add_right_comm, Nat.add_assoc] at hfree hend
        refine ⟨Nat.succ_lt_succ hlt, ?_, hend⟩
        rw [bytesBetween_eq_cons (by omega) hbyte, List.mem_cons, not_or]
        exact ⟨fun heq => hzero heq.symm, hfree⟩

lemma runLength?_eq_some {start count : ℕ} {bytes : List UInt8} (hlt : bytes.length < count)
    (hbytes : bytesBetween data start (start + bytes.length) = bytes) (hfree : 0 ∉ bytes)
    (hend : data[start + bytes.length]? = some 0) :
    runLength? data start count = some bytes.length := by
  induction bytes generalizing start count with
  | nil =>
    cases count with
    | zero => cases hlt
    | succ count =>
      rw [List.length_nil, Nat.add_zero] at hend
      rw [runLength?, hend]
      rfl
  | cons byte bytes ih =>
    cases count with
    | zero => cases hlt
    | succ count =>
      rw [List.length_cons] at hlt hbytes hend
      have hbyte : data[start]? = some byte := by
        have hfirst := congrArg (·[0]?) hbytes
        rwa [getElem?_bytesBetween, if_pos (by omega), Nat.add_zero] at hfirst
      rw [bytesBetween_eq_cons (by omega) hbyte] at hbytes
      obtain ⟨hne, hrest⟩ := not_or.mp (mt List.mem_cons.mpr hfree)
      have hsame : start + (bytes.length + 1) = start + 1 + bytes.length := by omega
      rw [hsame] at hbytes hend
      rw [runLength?, hbyte]
      dsimp only
      rw [if_neg (Ne.symm hne), ih (Nat.lt_of_succ_lt_succ hlt) (List.cons.inj hbytes).2 hrest hend]
      rfl

lemma of_readBytes_ok {count : ℕ} {bytes : List UInt8} (h : c.readBytes count = .ok (bytes, c')) :
    c.position % 8 = 0 ∧ bytes = bytesBetween c.data (c.position / 8) (c.position / 8 + count) ∧
      c.MovedTo (c.position + 8 * count) c' := by
  unfold readBytes at h
  split at h
  · cases h
  · rename_i haligned
    cases hskip : c.skip (8 * count) (bitsOfBytes? count) with
    | error => rw [hskip] at h; cases h
    | ok next =>
      rw [hskip] at h
      cases h
      exact ⟨Decidable.not_not.mp haligned, rfl, of_skip_ok hskip⟩

lemma exists_readBytes {count : ℕ} (haligned : c.position % 8 = 0)
    (h : c.position + 8 * count ≤ c.limit) :
    ∃ c', c.readBytes count =
        .ok (bytesBetween c.data (c.position / 8) (c.position / 8 + count), c') ∧
      c.MovedTo (c.position + 8 * count) c' := by
  obtain ⟨c', hskip, hmoved⟩ := exists_skip (bitsOfBytes? count) h
  refine ⟨c', ?_, hmoved⟩
  rw [readBytes, if_neg (not_not_intro haligned), hskip]
  rfl

lemma of_readZeroTerminated_ok {bytes : List UInt8} (h : c.readZeroTerminated = .ok (bytes, c')) :
    c.position % 8 = 0 ∧ 0 ∉ bytes ∧
      bytes = bytesBetween c.data (c.position / 8) (c.position / 8 + bytes.length) ∧
      c.data[c.position / 8 + bytes.length]? = some 0 ∧
      c.MovedTo (c.position + 8 * (bytes.length + 1)) c' := by
  unfold readZeroTerminated at h
  split at h
  · cases h
  · rename_i haligned
    dsimp only at h
    split at h
    · cases h
    · rename_i count hrun
      cases hskip : c.skip (8 * (count + 1)) with
      | error => rw [hskip] at h; cases h
      | ok next =>
        rw [hskip] at h
        cases h
        obtain ⟨-, hfree, hend⟩ := of_runLength? hrun
        obtain ⟨hlt, -⟩ := getElem?_eq_some_iff.mp hend
        have hlength : (bytesBetween c.data (c.position / 8) (c.position / 8 + count)).length =
            count := by
          rw [length_bytesBetween (Nat.le_of_lt hlt), Nat.add_sub_cancel_left]
        rw [hlength]
        exact ⟨Decidable.not_not.mp haligned, hfree, rfl, hend, of_skip_ok hskip⟩

lemma exists_readZeroTerminated {bytes : List UInt8} (haligned : c.position % 8 = 0)
    (hbytes : bytesBetween c.data (c.position / 8) (c.position / 8 + bytes.length) = bytes)
    (hfree : 0 ∉ bytes) (hend : c.data[c.position / 8 + bytes.length]? = some 0)
    (h : c.position + 8 * (bytes.length + 1) ≤ c.limit) :
    ∃ c', c.readZeroTerminated = .ok (bytes, c') ∧
      c.MovedTo (c.position + 8 * (bytes.length + 1)) c' := by
  obtain ⟨c', hskip, hmoved⟩ := exists_skip (some (8 * (bytes.length + 1))) h
  have hrun : runLength? c.data (c.position / 8) (c.limit / 8 - c.position / 8) =
      some bytes.length :=
    runLength?_eq_some (by omega) hbytes hfree hend
  refine ⟨c', ?_, hmoved⟩
  rw [readZeroTerminated, if_neg (not_not_intro haligned)]
  dsimp only
  rw [hrun]
  dsimp only
  rw [hskip, hbytes]
  rfl

end Bytes

/-! ## Bytes that are written bit by bit -/

section Written

variable {data : ByteArray} {order : ByteOrder} {position : ℕ}

/-- A whole byte is read as it stands. -/
lemma bitsAt_byte {byte : UInt8} (haligned : position % 8 = 0)
    (hbyte : data[position / 8]? = some byte) : bitsAt data position 8 order = byte.toNat := by
  have hsize : position / 8 < data.size := (getElem?_eq_some_iff.mp hbyte).1
  have hlt := bitsAt_lt data position 8 order
  rw [twoPow_eq] at hlt
  have hgetD : data.data.toList.getD (position / 8) 0 = byte := by
    rw [List.getD_eq_getElem?_getD, getElem?_toList, hbyte, Option.getD_some]
  apply Nat.eq_of_testBit_eq
  intro i
  rcases Nat.lt_or_ge i 8 with hi | hi
  · have hindex : (position + order.indexOf 8 i) / 8 = position / 8 := by
      cases order <;> dsimp only [ByteOrder.indexOf] <;> omega
    have hplace : order.place (position + order.indexOf 8 i) = i := by
      cases order <;> dsimp only [ByteOrder.indexOf, ByteOrder.place] <;> omega
    rw [testBit_bitsAt (by omega) hi, bitAt, hindex, hplace, hgetD]
  · have hpow : 2 ^ 8 ≤ 2 ^ i := Nat.pow_le_pow_right (by decide) hi
    rw [Nat.testBit_lt_two_pow (Nat.lt_of_lt_of_le hlt hpow),
      Nat.testBit_lt_two_pow (Nat.lt_of_lt_of_le byte.toNat_lt hpow)]

end Written

end Cursor

/-- The bits of bytes, one byte after the other. -/
def ByteOrder.bitsOfBytes (order : ByteOrder) (bytes : List UInt8) : List Bool :=
  bytes.flatMap fun byte => order.bits 8 byte.toNat

@[simp] lemma ByteOrder.length_bitsOfBytes (order : ByteOrder) (bytes : List UInt8) :
    (order.bitsOfBytes bytes).length = 8 * bytes.length := by
  induction bytes with
  | nil => rfl
  | cons byte bytes ih =>
    rw [bitsOfBytes, List.flatMap_cons, List.length_append, length_bits, List.length_cons,
      Nat.mul_succ, Nat.add_comm]
    exact congrArg (· + 8) ih

namespace Cursor

variable {data : ByteArray} {order : ByteOrder} {position : ℕ}

/-- A byte that is written bit by bit is there. -/
lemma getElem?_of_holds {byte : UInt8} (haligned : position % 8 = 0)
    (h : Holds data order position (order.bits 8 byte.toNat))
    (hdata : position + 8 ≤ 8 * data.size) : data[position / 8]? = some byte := by
  have hsize : position / 8 < data.size := by omega
  have hread := bitsAt_of_holds h hdata byte.toNat_lt
  have hthere : data[position / 8]? = some data[position / 8] := getElem?_pos data _ hsize
  rw [bitsAt_byte haligned hthere] at hread
  rw [hthere, UInt8.toNat_inj.mp hread]

/-- **Bytes that are written bit by bit are there.** -/
lemma bytesBetween_of_holds {bytes : List UInt8} (haligned : position % 8 = 0)
    (h : Holds data order position (order.bitsOfBytes bytes))
    (hdata : position + 8 * bytes.length ≤ 8 * data.size) :
    bytesBetween data (position / 8) (position / 8 + bytes.length) = bytes := by
  induction bytes generalizing position with
  | nil => exact bytesBetween_eq_nil (Nat.le_refl _)
  | cons byte bytes ih =>
    rw [List.length_cons] at hdata ⊢
    rw [ByteOrder.bitsOfBytes, List.flatMap_cons] at h
    obtain ⟨hfirst, hrest⟩ := holds_append.mp h
    rw [ByteOrder.length_bits] at hrest
    have hbyte := getElem?_of_holds haligned hfirst (by omega)
    have hnext : (position + 8) / 8 = position / 8 + 1 := by omega
    have hsame : position / 8 + (bytes.length + 1) = position / 8 + 1 + bytes.length := by omega
    have htail := ih (by omega) hrest (by omega)
    rw [hnext] at htail
    rw [bytesBetween_eq_cons (by omega) hbyte, hsame, htail]

end Cursor

end CommonTrace
