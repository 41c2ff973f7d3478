import CommonTrace.Proofs.Bit.Reading

/-!
# A cursor without proofs

A `Cursor` cannot stand behind its limit, nor can its limit lie behind its data, since its type says so; and
bytes that a region does not have are left out when it is cut.  So it cannot be seen from a `Cursor` whether
the tests that its operations make are enough.

Here the operations are written once more, on a cursor that is a region and two numbers which may have any
values.  Bytes are looked up by their index, and slices of the region are taken, where a byte or a slice that
is not there brings everything to a stop (`Stop.outOfRange`); so does a cursor behind its limit that is asked
what remains.  The position is a variable that an operation sets, and an operation that fails leaves it as it
has set it.

Each operation does on the numbers of a `Cursor` what it does on the `Cursor` (`BareCursor.run_readUnsigned`
and its like).  In particular nothing is out of range, and nothing has been moved when an operation fails.
-/

namespace CommonTrace

/-- Why a computation on a cursor without proofs comes to a stop. -/
inductive Stop where
  /-- The operation fails with an error. -/
  | failed (error : ReadError)
  /-- A byte or a slice does not lie in the region, or the cursor stands behind its limit. -/
  | outOfRange
deriving DecidableEq, Repr

/-- A region and two numbers. -/
structure BareCursor where
  /-- The byte region. -/
  data : ByteArray
  /-- The number of readable bits. -/
  limit : ℕ
  /-- The bit that is read next. -/
  position : ℕ

/-- A computation that moves a cursor.  The moves that it has made when it comes to a stop are not taken
back. -/
abbrev BareM (α : Type) : Type :=
  EStateM Stop BareCursor α

namespace BareCursor

/-! ## The operations -/

/-- A cursor at the start of a region, all of which may be read. -/
def ofBytes (data : ByteArray) : BareCursor where
  data
  limit := data.size * 8
  position := 0

/-- The cursor with a limit after the first `bits` bits, or at the end of the region if it is shorter. -/
def withLimit (c : BareCursor) (bits : ℕ) : BareCursor :=
  { c with limit := min bits (c.data.size * 8) }

/-- The byte with the given index. -/
def byteAt (index : ℕ) : BareM UInt8 := do
  let c ← get
  match c.data[index]? with
  | some byte => return byte
  | none => throw .outOfRange

/-- The bytes from the index `start` up to the index `stop`. -/
def slice (start stop : ℕ) : BareM (List UInt8) := do
  let c ← get
  if start ≤ stop ∧ stop ≤ c.data.size then return Cursor.bytesBetween c.data start stop
  else throw .outOfRange

/-- The number of bits left before the limit. -/
def remaining : BareM ℕ := do
  let c ← get
  if c.position ≤ c.limit then return c.limit - c.position else throw .outOfRange

/-- Whether `bits` more bits can be read. -/
def canRead (bits : ℕ) : BareM Bool := do
  let c ← get
  if c.data.size = 0 then return false
  else
    let left ← remaining
    return bits ≤ left

/-- Fails if `bits` more bits cannot be read.  The failure says that `requested` were asked for. -/
def ensure (bits : ℕ) (requested : Option ℕ := some bits) : BareM Unit := do
  if (← canRead bits) || bits = 0 then return ()
  else
    let c ← get
    let left ← remaining
    throw (.failed (.underflow c.position requested left))

/-- Moves over `bits` bits. -/
def advance (bits : ℕ) : BareM Unit :=
  modify fun c => { c with position := c.position + bits }

/-- Moves over `bits` bits, if there are as many, after `read` has read them. -/
def taking {α : Type} (bits : ℕ) (read : BareM α) (requested : Option ℕ := some bits) : BareM α := do
  ensure bits requested
  let value ← read
  advance bits
  return value

/-- Gathers `left` bits of a big endian number from bit `position` on. -/
def gatherBig (value : BitVec 64) (position left : ℕ) : BareM (BitVec 64) :=
  if left = 0 then return value
  else do
    let byte ← byteAt (position / 8)
    let offset := position % 8
    let take := min left (8 - offset)
    gatherBig ((value <<< take) ||| Cursor.chunk byte (8 - offset - take) take) (position + take) (left - take)
termination_by left
decreasing_by omega

/-- Gathers the bits of a little endian number of `width` bits from bit `position` on, of which `shift` bits
are there already. -/
def gatherLittle (width : ℕ) (value : BitVec 64) (position shift : ℕ) : BareM (BitVec 64) :=
  if width ≤ shift then return value
  else do
    let byte ← byteAt (position / 8)
    let offset := position % 8
    let take := min (width - shift) (8 - offset)
    gatherLittle width (value ||| (Cursor.chunk byte offset take <<< shift)) (position + take) (shift + take)
termination_by width - shift
decreasing_by omega

/-- The integer in the `width` bits from the position on. -/
def word (width : ℕ) (order : ByteOrder) : BareM (BitVec 64) := do
  let c ← get
  if c.position % 8 = 0 ∧ width % 8 = 0 then
    let bytes ← slice (c.position / 8) (c.position / 8 + width / 8)
    return Cursor.wholeBytes order bytes
  else
    match order with
    | .big => gatherBig 0#64 c.position width
    | .little => gatherLittle width 0#64 c.position 0

/-- Reads an unsigned integer of `width` bits. -/
def readUnsigned (width : ℕ) (order : ByteOrder) : BareM ℕ :=
  if width = 0 ∨ 64 < width then throw (.failed (.invalidWidth width))
  else taking width (BitVec.toNat <$> word width order)

/-- Reads a two's complement integer of `width` bits. -/
def readSigned (width : ℕ) (order : ByteOrder) : BareM ℤ := do
  let raw ← readUnsigned width order
  return (Cursor.repeatSign (BitVec.ofNat 64 raw) width).toInt

/-- Reads `count` bytes. -/
def readBytes (count : ℕ) : BareM (List UInt8) := do
  let c ← get
  if c.position % 8 ≠ 0 then throw (.failed (.unaligned c.position))
  else taking (8 * count) (slice (c.position / 8) (c.position / 8 + count)) (Cursor.bitsOfBytes? count)

/-- Reads the bytes up to the next zero byte, and steps over it. -/
def readZeroTerminated : BareM (List UInt8) := do
  let c ← get
  if c.position % 8 ≠ 0 then throw (.failed (.unaligned c.position))
  else
    let region ← slice (c.position / 8) (c.limit / 8)
    match region.findIdx? (· == 0) with
    | some length =>
      advance ((length + 1) * 8)
      return region.take length
    | none =>
      let left ← remaining
      throw (.failed (.underflow c.position (some ((region.length + 1) * 8)) left))

/-- Moves to the next multiple of `alignment` bits. -/
def align (alignment : ℕ) : BareM Unit := do
  let c ← get
  if alignment ≤ 1 then return ()
  else if c.position % alignment = 0 then return ()
  else taking (alignment - c.position % alignment) (return ())

/-- Moves to the given bit. -/
def seek (position : ℕ) : BareM Unit := do
  let c ← get
  if c.limit < position then
    let left ← remaining
    throw (.failed (.underflow c.position (some (position - c.position)) left))
  else set { c with position }

/-! ## What they do on the numbers of a cursor -/

/-- The numbers of a cursor. -/
def ofCursor (c : Cursor) : BareCursor where
  data := c.data
  limit := c.limit
  position := c.position

@[simp] lemma data_ofCursor (c : Cursor) : (ofCursor c).data = c.data := rfl

@[simp] lemma limit_ofCursor (c : Cursor) : (ofCursor c).limit = c.limit := rfl

@[simp] lemma position_ofCursor (c : Cursor) : (ofCursor c).position = c.position := rfl

/-- A cursor with a limit, in plain numbers. -/
lemma ofCursor_ofPrefix (data : ByteArray) (bits : ℕ) :
    ofCursor (Cursor.ofPrefix data bits) = (ofBytes data).withLimit bits := by
  simp only [ofCursor, Cursor.ofPrefix, ofBytes, withLimit, Nat.mul_comm 8]

/-- The outcome of an operation of a cursor, in plain numbers.  If it has failed, nothing has been moved. -/
def outcome {α : Type} (c : Cursor) :
    Except ReadError (α × Cursor) → EStateM.Result Stop BareCursor α
  | .ok (value, next) => .ok value (ofCursor next)
  | .error error => .error (.failed error) (ofCursor c)

variable {α β : Type}

lemma run_map (f : α → β) (m : BareM α) (c : BareCursor) :
    (f <$> m).run c =
      match m.run c with
      | .ok value c' => .ok (f value) c'
      | .error stop c' => .error stop c' := by
  unfold EStateM.run
  simp only [Functor.map, EStateM.map]
  rcases m c with _ | _ <;> rfl

/-- What is made of a result does not matter to the cursor. -/
lemma run_map_of_run {m : BareM α} {c : Cursor} {result : Except ReadError (α × Cursor)} (f : α → β)
    (h : m.run (ofCursor c) = outcome c result) :
    (f <$> m).run (ofCursor c) = outcome c (result.map (Prod.map f id)) := by
  rw [run_map, h]
  rcases result with error | ⟨value, next⟩ <;> rfl

/-! ### Bytes that are there -/

lemma run_byteAt {c : BareCursor} {index : ℕ} {byte : UInt8} (h : c.data[index]? = some byte) :
    (byteAt index).run c = .ok byte c := by
  simp [byteAt, h]

lemma run_slice {c : BareCursor} {start stop : ℕ} (hle : start ≤ stop) (hstop : stop ≤ c.data.size) :
    (slice start stop).run c = .ok (Cursor.bytesBetween c.data start stop) c := by
  simp [slice, hle, hstop]

/-- A bit of the region lies in a byte that is there. -/
lemma exists_byte {data : ByteArray} {position left : ℕ} (hleft : 0 < left)
    (hdata : position + left ≤ 8 * data.size) : ∃ byte, data[position / 8]? = some byte := by
  have hindex : position / 8 < data.size := by omega
  exact ⟨_, getElem?_pos data _ hindex⟩

/-! ### Bits that are left -/

lemma run_remaining (c : Cursor) : remaining.run (ofCursor c) = .ok c.remaining (ofCursor c) := by
  simp [remaining, c.position_le, Cursor.remaining]

lemma run_canRead (c : Cursor) (bits : ℕ) :
    (canRead bits).run (ofCursor c) = .ok (c.canRead bits) (ofCursor c) := by
  by_cases h : c.data.size = 0
  · simp only [canRead, Cursor.canRead, EStateM.run_bind, EStateM.run_get, data_ofCursor, h, ↓reduceIte]
    rfl
  · simp only [canRead, Cursor.canRead, EStateM.run_bind, EStateM.run_get, data_ofCursor, h, ↓reduceIte,
      run_remaining, ne_eq, not_false_eq_true, decide_true, Bool.true_and]
    rfl

/-- Of an empty region nothing can be read, but there is nothing to be read if no bits are asked for. -/
lemma run_ensure (c : Cursor) (bits : ℕ) (requested : Option ℕ) :
    (ensure bits requested).run (ofCursor c) =
      if bits ≤ c.remaining then .ok () (ofCursor c)
      else .error (.failed (.underflow c.position requested c.remaining)) (ofCursor c) := by
  have hempty : c.data.size = 0 → c.remaining = 0 := by
    intro h
    have := c.limit_le
    unfold Cursor.remaining
    omega
  have htest : (c.canRead bits || decide (bits = 0)) = decide (bits ≤ c.remaining) := by
    unfold Cursor.canRead
    by_cases h : c.data.size = 0
    · simp [h, hempty h]
    · by_cases hbits : bits = 0 <;> simp [h, hbits]
  simp only [ensure, EStateM.run_bind, run_canRead, htest]
  by_cases h : bits ≤ c.remaining
  · simp [h]
  · simp [h, run_remaining]

/-- What is read once there are enough bits is read with these bits there, and then they are skipped. -/
lemma run_taking {c : Cursor} {bits : ℕ} {read : BareM α} {value : α}
    (h : bits ≤ c.remaining → read.run (ofCursor c) = .ok value (ofCursor c)) (requested : Option ℕ) :
    (taking bits read requested).run (ofCursor c) = outcome c (c.skip bits requested |>.map (value, ·)) := by
  by_cases hbits : bits ≤ c.remaining
  · simp only [taking, EStateM.run_bind, run_ensure, if_pos hbits, h hbits]
    rw [Cursor.skip, dif_pos hbits]
    rfl
  · simp only [taking, EStateM.run_bind, run_ensure, if_neg hbits]
    rw [Cursor.skip, dif_neg hbits]
    rfl

/-! ### Integers -/

section Integers

variable {c : BareCursor} {position : ℕ}

/-- Where the next byte is taken up: what is left of a number that goes on behind a byte starts a byte. -/
lemma next_byte {left take : ℕ} (htake : take = min left (8 - position % 8)) (hrest : 0 < left - take) :
    (position + take) % 8 = 0 ∧ (position + take) / 8 = position / 8 + 1 ∧
      position + take + (left - take) = position + left := by
  omega

lemma run_gatherBig (value : BitVec 64) {left : ℕ} (hleft : 0 < left)
    (hdata : position + left ≤ 8 * c.data.size) :
    (gatherBig value position left).run c =
      .ok (Cursor.gatherBig value (position % 8) left
        (Cursor.bytesBetween c.data (position / 8) ((position + left + 7) / 8))) c := by
  induction left using Nat.strong_induction_on generalizing value position with
  | _ left ih =>
    obtain ⟨byte, hbyte⟩ := exists_byte hleft hdata
    rw [gatherBig, if_neg (by omega), EStateM.run_bind, run_byteAt hbyte,
      Cursor.bytesBetween_eq_cons (by omega) hbyte, Cursor.gatherBig]
    dsimp only
    generalize htake : min left (8 - position % 8) = take
    rcases Nat.eq_zero_or_pos (left - take) with hdone | hrest
    · rw [hdone, gatherBig, if_pos rfl, Cursor.bytesBetween_eq_nil (by omega)]
      rfl
    · obtain ⟨haligned, hindex, hend⟩ := next_byte htake.symm hrest
      rw [ih (left - take) (by omega) _ hrest (by omega), haligned, hindex, hend]

lemma run_gatherLittle (value : BitVec 64) {width shift : ℕ} (hleft : shift < width)
    (hdata : position + (width - shift) ≤ 8 * c.data.size) :
    (gatherLittle width value position shift).run c =
      .ok (Cursor.gatherLittle value shift (position % 8) (width - shift)
        (Cursor.bytesBetween c.data (position / 8) ((position + (width - shift) + 7) / 8))) c := by
  induction hlength : width - shift using Nat.strong_induction_on generalizing value position shift with
  | _ left ih =>
    obtain ⟨byte, hbyte⟩ := exists_byte (Nat.sub_pos_of_lt hleft) hdata
    rw [gatherLittle, if_neg (by omega), EStateM.run_bind, run_byteAt hbyte,
      Cursor.bytesBetween_eq_cons (by omega) hbyte, Cursor.gatherLittle]
    dsimp only
    rw [hlength]
    generalize htake : min left (8 - position % 8) = take
    rcases Nat.eq_zero_or_pos (left - take) with hdone | hrest
    · rw [hdone, gatherLittle, if_pos (by omega), Cursor.bytesBetween_eq_nil (by omega)]
      rfl
    · obtain ⟨haligned, hindex, hend⟩ := next_byte htake.symm hrest
      rw [ih (left - take) (by omega) _ (by omega) (by omega) (by omega), haligned, hindex, hend]

/-- The bytes of the integer are there, in whichever way it is put together. -/
lemma run_word {c : Cursor} {width : ℕ} (order : ByteOrder) (hpositive : 0 < width)
    (h : width ≤ c.remaining) :
    (word width order).run (ofCursor c) =
      .ok (Cursor.wordAt c.data c.position width order) (ofCursor c) := by
  have hdata := Cursor.le_size_of_le_remaining h
  by_cases haligned : c.position % 8 = 0 ∧ width % 8 = 0
  · have hend : (c.position + width + 7) / 8 = c.position / 8 + width / 8 := by omega
    have hslice : (slice (c.position / 8) (c.position / 8 + width / 8)).run (ofCursor c) =
        .ok (Cursor.bytesBetween c.data (c.position / 8) (c.position / 8 + width / 8)) (ofCursor c) :=
      run_slice (Nat.le_add_right _ _) (by rw [data_ofCursor]; omega)
    simp only [word, Cursor.wordAt, EStateM.run_bind, EStateM.run_get, position_ofCursor, haligned, and_self,
      ↓reduceIte, hend, hslice]
    rfl
  · simp only [word, Cursor.wordAt, EStateM.run_bind, EStateM.run_get, position_ofCursor, haligned,
      ↓reduceIte]
    cases order with
    | big => exact run_gatherBig 0#64 hpositive hdata
    | little => exact run_gatherLittle 0#64 hpositive hdata

end Integers

/-! ### The operations one by one -/

theorem run_readUnsigned (c : Cursor) (width : ℕ) (order : ByteOrder) :
    (readUnsigned width order).run (ofCursor c) = outcome c (c.readUnsigned width order) := by
  unfold readUnsigned Cursor.readUnsigned
  by_cases hwidth : width = 0 ∨ 64 < width
  · rw [if_pos hwidth, if_pos hwidth]
    rfl
  · have hword : width ≤ c.remaining →
        (BitVec.toNat <$> word width order).run (ofCursor c) =
          .ok (Cursor.wordAt c.data c.position width order).toNat (ofCursor c) := by
      intro h
      rw [run_map, run_word order (by omega) h]
    rw [if_neg hwidth, if_neg hwidth, run_taking hword]
    rcases c.skip width with _ | _ <;> rfl

theorem run_readSigned (c : Cursor) (width : ℕ) (order : ByteOrder) :
    (readSigned width order).run (ofCursor c) = outcome c (c.readSigned width order) := by
  rw [readSigned, EStateM.run_bind, run_readUnsigned, Cursor.readSigned]
  rcases c.readUnsigned width order with _ | ⟨_, _⟩ <;> rfl

theorem run_readBytes (c : Cursor) (count : ℕ) :
    (readBytes count).run (ofCursor c) = outcome c (c.readBytes count) := by
  by_cases haligned : c.position % 8 = 0
  · have hslice : 8 * count ≤ c.remaining →
        (slice (c.position / 8) (c.position / 8 + count)).run (ofCursor c) =
          .ok (Cursor.bytesBetween c.data (c.position / 8) (c.position / 8 + count)) (ofCursor c) := by
      intro h
      have hdata := Cursor.le_size_of_le_remaining h
      exact run_slice (Nat.le_add_right _ _) (by rw [data_ofCursor]; omega)
    simp only [readBytes, Cursor.readBytes, EStateM.run_bind, EStateM.run_get, position_ofCursor, haligned,
      ne_eq, not_true_eq_false, ↓reduceIte, run_taking hslice]
    rcases c.skip (8 * count) (Cursor.bitsOfBytes? count) with _ | _ <;> rfl
  · simp only [readBytes, Cursor.readBytes, EStateM.run_bind, EStateM.run_get, position_ofCursor, haligned,
      ne_eq, not_false_eq_true, ↓reduceIte]
    rfl

/-- The zero byte that is found lies before the limit, so that it can be stepped over. -/
theorem run_readZeroTerminated (c : Cursor) :
    readZeroTerminated.run (ofCursor c) = outcome c c.readZeroTerminated := by
  have hposition := c.position_le
  have hlimit := c.limit_le
  by_cases haligned : c.position % 8 = 0
  · have hstop : c.position / 8 + (c.limit / 8 - c.position / 8) = c.limit / 8 := by omega
    have hlength : (Cursor.bytesBetween c.data (c.position / 8) (c.limit / 8)).length =
        c.limit / 8 - c.position / 8 :=
      Cursor.length_bytesBetween (by omega)
    have hslice : (slice (c.position / 8) (c.limit / 8)).run (ofCursor c) =
        .ok (Cursor.bytesBetween c.data (c.position / 8) (c.limit / 8)) (ofCursor c) :=
      run_slice (by omega) (by rw [data_ofCursor]; omega)
    have hsearch : Cursor.runLength? c.data (c.position / 8) (c.limit / 8 - c.position / 8) =
        (Cursor.bytesBetween c.data (c.position / 8) (c.limit / 8)).findIdx? (· == 0) := by
      rw [Cursor.runLength?_eq_findIdx? (by omega), hstop]
    simp only [readZeroTerminated, Cursor.readZeroTerminated, EStateM.run_bind, EStateM.run_get,
      position_ofCursor, limit_ofCursor, haligned, ne_eq, not_true_eq_false, ↓reduceIte, hslice, hsearch]
    cases hfound : (Cursor.bytesBetween c.data (c.position / 8) (c.limit / 8)).findIdx? (· == 0) with
    | none =>
      simp only [EStateM.run_bind, run_remaining, hlength, Nat.mul_comm 8]
      rfl
    | some count =>
      obtain ⟨hlt, -⟩ := List.findIdx?_eq_some_iff_getElem.mp hfound
      have hremaining : 8 * (count + 1) ≤ c.remaining := by
        unfold Cursor.remaining
        omega
      have htake : (Cursor.bytesBetween c.data (c.position / 8) (c.limit / 8)).take count =
          Cursor.bytesBetween c.data (c.position / 8) (c.position / 8 + count) :=
        Cursor.take_bytesBetween (by omega)
      simp only [EStateM.run_bind, Cursor.skip, hremaining, ↓reduceDIte, htake, Nat.mul_comm _ 8]
      rfl
  · simp only [readZeroTerminated, Cursor.readZeroTerminated, EStateM.run_bind, EStateM.run_get,
      position_ofCursor, haligned, ne_eq, not_false_eq_true, ↓reduceIte]
    rfl

theorem run_align (c : Cursor) (alignment : ℕ) :
    (align alignment).run (ofCursor c) = outcome c ((c.align alignment).map ((), ·)) := by
  by_cases hle : alignment ≤ 1
  · simp only [align, Cursor.align, EStateM.run_bind, EStateM.run_get, hle, true_or, ↓reduceIte]
    rfl
  · by_cases hmod : c.position % alignment = 0
    · simp only [align, Cursor.align, EStateM.run_bind, EStateM.run_get, position_ofCursor, hmod, or_true,
        ↓reduceIte, ite_self]
      rfl
    · simp only [align, Cursor.align, EStateM.run_bind, EStateM.run_get, position_ofCursor, hle, hmod, or_self,
        ↓reduceIte]
      exact run_taking (fun _ => rfl) _

theorem run_seek (c : Cursor) (position : ℕ) :
    (seek position).run (ofCursor c) = outcome c ((c.seek position).map ((), ·)) := by
  by_cases h : position ≤ c.limit
  · simp only [seek, Cursor.seek, EStateM.run_bind, EStateM.run_get, limit_ofCursor, Nat.not_lt.mpr h, h,
      ↓reduceIte, ↓reduceDIte]
    rfl
  · simp only [seek, Cursor.seek, EStateM.run_bind, EStateM.run_get, limit_ofCursor, position_ofCursor,
      Nat.lt_of_not_le h, h, ↓reduceIte, ↓reduceDIte, run_remaining]
    rfl

end BareCursor

end CommonTrace
