import CommonTrace.Proofs.Bit.Reading
import Mathlib.Data.Nat.Init

/-!
# Bits that are written and read

Bits that are written one after the other fill bytes, each from its low end or from its high end, as the
byte order says (`ByteOrder.pack`).  In the bytes they are where `Cursor.bitAt` looks for them, whatever
was written before and behind them.

A reader does not have to know how the bytes came about.  It is enough that bits are ahead of its cursor
(`Cursor.Ahead`), and for each kind of read it is said here which bits make it give what: a number gives
its bits, and bytes give theirs.
-/

namespace CommonTrace

/-! ## Filling bytes -/

namespace ByteOrder

lemma place_lt (order : ByteOrder) (position : ℕ) : order.place position < 8 := by
  cases order <;> dsimp only [place] <;> omega

/-- The place of a bit in its byte is the bit of the byte that is at this place. -/
lemma place_place (order : ByteOrder) (position : ℕ) :
    order.place (order.place position) = position % 8 := by
  cases order <;> dsimp only [place] <;> omega

/-- The byte that starts with the given bits.  Bits that are missing are zero. -/
def packByte (order : ByteOrder) (bits : List Bool) : UInt8 :=
  UInt8.ofNat (Nat.ofBits fun i : Fin 8 => bits.getD (order.place i) false)

/-- The bytes that the given bits fill, the last one up with zeros. -/
def pack (order : ByteOrder) (bits : List Bool) : List UInt8 :=
  (List.range ((bits.length + 7) / 8)).map fun i => order.packByte (bits.drop (8 * i))

lemma testBit_packByte (order : ByteOrder) (bits : List Bool) (position : ℕ) :
    (order.packByte bits).toNat.testBit (order.place position) = bits.getD (position % 8) false := by
  unfold packByte
  rw [UInt8.toNat_ofNat', Nat.mod_eq_of_lt (Nat.ofBits_lt_two_pow _),
    Nat.testBit_ofBits_lt _ _ (order.place_lt position), place_place]

end ByteOrder

namespace Cursor

variable {order : ByteOrder}

/-- **Bits that are written are there.** -/
lemma holds_pack (order : ByteOrder) (bits : List Bool) :
    Holds ⟨(order.pack bits).toArray⟩ order 0 bits := by
  intro i b hi
  have hlt : i / 8 < (bits.length + 7) / 8 := by
    have hlength := (List.getElem?_eq_some_iff.mp hi).1
    omega
  have hbyte : (order.pack bits).getD (i / 8) 0 = order.packByte (bits.drop (8 * (i / 8))) := by
    simp [ByteOrder.pack, hlt]
  rw [bitAt, Nat.zero_add, hbyte, ByteOrder.testBit_packByte, List.getD_eq_getElem?_getD,
    List.getElem?_drop, Nat.div_add_mod, hi, Option.getD_some]

/-! ## Bits ahead of a cursor -/

/-- The given bits are ahead of the cursor, and it can read them. -/
structure Ahead (c : Cursor) (order : ByteOrder) (bits : List Bool) : Prop where
  holds : Holds c.data order c.position bits
  le_limit : c.position + bits.length ≤ c.limit

/-- Bits are ahead of a cursor that stands between others. -/
lemma ahead_of_pack {c : Cursor} {before bits after : List Bool}
    (hdata : c.data = ⟨(order.pack (before ++ bits ++ after)).toArray⟩)
    (hposition : c.position = before.length) (hlimit : before.length + bits.length ≤ c.limit) :
    c.Ahead order bits := by
  refine ⟨?_, hposition ▸ hlimit⟩
  have hall := holds_pack order (before ++ bits ++ after)
  obtain ⟨hfirst, -⟩ := holds_append.mp hall
  obtain ⟨-, hbits⟩ := holds_append.mp hfirst
  rw [hdata, hposition]
  rwa [Nat.zero_add] at hbits

namespace Ahead

variable {c c' : Cursor} {first rest : List Bool}

lemma left (h : c.Ahead order (first ++ rest)) : c.Ahead order first := by
  have hlimit := h.le_limit
  rw [List.length_append] at hlimit
  exact ⟨(holds_append.mp h.holds).1, by omega⟩

/-- Behind the first bits, the others are ahead. -/
lemma right (h : c.Ahead order (first ++ rest)) (hmoved : c.MovedTo (c.position + first.length) c') :
    c'.Ahead order rest := by
  have hlimit := h.le_limit
  rw [List.length_append] at hlimit
  constructor
  · rw [hmoved.data, hmoved.position]
    exact (holds_append.mp h.holds).2
  · rw [hmoved.position, hmoved.limit]
    omega

/-- The bits are bits of the data. -/
lemma le_size (h : c.Ahead order first) : c.position + first.length ≤ 8 * c.data.size :=
  Nat.le_trans h.le_limit c.limit_le

/-! ## Reading what is ahead -/

variable {width : ℕ}

/-- The bits of a number are read as the number. -/
lemma exists_readUnsigned {n : ℕ} (h : c.Ahead order (order.bits width n)) (hpositive : 0 < width)
    (hwidth : width ≤ 64) (hn : n < twoPow width) :
    ∃ c', c.readUnsigned width order = .ok (n, c') ∧ c.MovedTo (c.position + width) c' := by
  have hlimit := h.le_limit
  have hsize := h.le_size
  rw [ByteOrder.length_bits] at hlimit hsize
  obtain ⟨c', hread, hmoved⟩ := Cursor.exists_readUnsigned order hpositive hwidth hlimit
  rw [bitsAt_of_holds h.holds hsize hn] at hread
  exact ⟨c', hread, hmoved⟩

/-- Two's complement is read as the integer. -/
lemma exists_readSigned {n : ℤ} (h : c.Ahead order (order.bits width (n % (twoPow width : ℤ)).toNat))
    (hpositive : 0 < width) (hwidth : width ≤ 64) (hlow : -twoPow (width - 1) ≤ n)
    (hhigh : n ≤ twoPow (width - 1) - 1) :
    ∃ c', c.readSigned width order = .ok (n, c') ∧ c.MovedTo (c.position + width) c' := by
  have hlimit := h.le_limit
  have hsize := h.le_size
  rw [ByteOrder.length_bits] at hlimit hsize
  have hpos := twoPow_pos width
  have hlt := Int.emod_lt_of_pos n (Int.ofNat_lt.mpr hpos)
  obtain ⟨c', hread, hmoved⟩ := Cursor.exists_readSigned order hpositive hwidth hlimit
  rw [bitsAt_of_holds h.holds hsize (by omega), signExtend_of_emod hpositive hwidth hlow hhigh] at hread
  exact ⟨c', hread, hmoved⟩

/-- The bits of bytes are read as the bytes. -/
lemma exists_readBytes {bytes : List UInt8} (h : c.Ahead order (order.bitsOfBytes bytes))
    (haligned : c.position % 8 = 0) :
    ∃ c', c.readBytes bytes.length = .ok (bytes, c') ∧
      c.MovedTo (c.position + 8 * bytes.length) c' := by
  have hlimit := h.le_limit
  have hsize := h.le_size
  rw [ByteOrder.length_bitsOfBytes] at hlimit hsize
  obtain ⟨c', hread, hmoved⟩ := Cursor.exists_readBytes haligned hlimit
  rw [bytesBetween_of_holds haligned h.holds hsize] at hread
  exact ⟨c', hread, hmoved⟩

/-- The bits of bytes with a zero byte behind them are read as the bytes. -/
lemma exists_readZeroTerminated {bytes : List UInt8}
    (h : c.Ahead order (order.bitsOfBytes (bytes ++ [0]))) (haligned : c.position % 8 = 0)
    (hfree : 0 ∉ bytes) :
    ∃ c', c.readZeroTerminated = .ok (bytes, c') ∧
      c.MovedTo (c.position + 8 * (bytes.length + 1)) c' := by
  have hlimit := h.le_limit
  have hsize := h.le_size
  rw [ByteOrder.length_bitsOfBytes, List.length_append, List.length_singleton] at hlimit hsize
  have hholds := h.holds
  rw [ByteOrder.bitsOfBytes, List.flatMap_append, List.flatMap_singleton] at hholds
  obtain ⟨hbytes, hzero⟩ := holds_append.mp hholds
  rw [← ByteOrder.bitsOfBytes, ByteOrder.length_bitsOfBytes] at hzero
  have hbetween := bytesBetween_of_holds haligned hbytes (by omega)
  have hend : c.data[(c.position + 8 * bytes.length) / 8]? = some 0 :=
    getElem?_of_holds (by omega) hzero (by omega)
  have hindex : (c.position + 8 * bytes.length) / 8 = c.position / 8 + bytes.length := by omega
  rw [hindex] at hend
  exact Cursor.exists_readZeroTerminated haligned hbetween hfree hend hlimit

end Ahead

end Cursor

end CommonTrace
