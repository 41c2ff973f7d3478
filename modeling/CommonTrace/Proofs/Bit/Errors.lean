import CommonTrace.Proofs.Bit.Reading

/-!
# Errors of reads

For each way of moving a cursor it is said here which errors it does not fail with.  `ReadAvoids` is about errors
of an arbitrary kind; all that matters about the kind is whether it has those errors in it that the read may
fail with.  Too few bits are the fault of the data, so the kinds of concern have no error in them that says how
many bits were asked for.

The program stops at one kind of errors and does not report them: the bits of a text are counted by a
multiplication in a machine word, which may overflow.  Only reads of `2 ^ 61` bytes and more can fail in this way
(`Cursor.reported_readBytes`).
-/

namespace CommonTrace

/-- What has been read, or an error that is not of the kind. -/
def ReadAvoids {α : Type} (fault : ReadError → Prop) (result : Except ReadError α) : Prop :=
  ∀ error, result = .error error → ¬fault error

namespace ReadAvoids

variable {α β : Type} {fault : ReadError → Prop} {result : Except ReadError α}

lemma ok (a : α) : ReadAvoids fault (.ok a) :=
  nofun

lemma error {e : ReadError} (h : ¬fault e) : ReadAvoids fault (.error e : Except ReadError α) := by
  rintro _ ⟨⟩
  exact h

lemma bind {k : α → Except ReadError β} (h : ReadAvoids fault result) (hk : ∀ a, ReadAvoids fault (k a)) :
    ReadAvoids fault (result >>= k) := by
  cases result with
  | error e => exact error (h e rfl)
  | ok a => exact hk a

lemma map (h : ReadAvoids fault result) (f : α → β) : ReadAvoids fault (result.map f) := by
  cases result with
  | error e => exact error (h e rfl)
  | ok a => exact ok (f a)

end ReadAvoids

namespace Cursor

/-! ## Errors of some kind -/

section Kinds

variable {c : Cursor} {fault : ReadError → Prop}

lemma avoids_skip {bits : ℕ} {requested : Option ℕ} (h : ¬fault (.underflow c.position requested c.remaining)) :
    ReadAvoids fault (c.skip bits requested) := by
  unfold skip
  split
  · exact .ok _
  · exact .error h

variable (hfault : ∀ position requested remaining, ¬fault (.underflow position (some requested) remaining))

include hfault

lemma avoids_align (alignment : ℕ) : ReadAvoids fault (c.align alignment) := by
  unfold align
  split
  · exact .ok _
  · exact avoids_skip (hfault _ _ _)

lemma avoids_seek (position : ℕ) : ReadAvoids fault (c.seek position) := by
  unfold seek
  split
  · exact .ok _
  · exact .error (hfault _ _ _)

lemma avoids_readUnsigned {width : ℕ} {order : ByteOrder}
    (hwidth : width = 0 ∨ 64 < width → ¬fault (.invalidWidth width)) :
    ReadAvoids fault (c.readUnsigned width order) := by
  unfold readUnsigned
  split
  · rename_i hinvalid
    exact .error (hwidth hinvalid)
  · exact (avoids_skip (hfault _ _ _)).bind fun _ => .ok _

lemma avoids_readSigned {width : ℕ} {order : ByteOrder}
    (hwidth : width = 0 ∨ 64 < width → ¬fault (.invalidWidth width)) :
    ReadAvoids fault (c.readSigned width order) :=
  (avoids_readUnsigned hfault hwidth).bind fun _ => .ok _

lemma avoids_readZeroTerminated (hbyte : c.position % 8 ≠ 0 → ¬fault (.unaligned c.position)) :
    ReadAvoids fault c.readZeroTerminated := by
  unfold readZeroTerminated
  split
  · rename_i hunaligned
    exact .error (hbyte hunaligned)
  · dsimp only
    split
    · exact .error (hfault _ _ _)
    · exact (avoids_skip (hfault _ _ _)).bind fun _ => .ok _

omit hfault in
/-- Reading bytes is the only read that may fail without saying how many bits it has asked for. -/
lemma avoids_readBytes {count : ℕ} (hbyte : c.position % 8 ≠ 0 → ¬fault (.unaligned c.position))
    (hbits : ¬fault (.underflow c.position (bitsOfBytes? count) c.remaining)) :
    ReadAvoids fault (c.readBytes count) := by
  unfold readBytes
  split
  · rename_i hunaligned
    exact .error (hbyte hunaligned)
  · exact (avoids_skip hbits).bind fun _ => .ok _

end Kinds

end Cursor

/-! ## Errors at which the program stops -/

/-- What has been read, or an error that is reported. -/
abbrev Reported {α : Type} (result : Except ReadError α) : Prop :=
  ReadAvoids (fun error => error.stops = true) result

namespace Cursor

variable (c : Cursor)

lemma bitsOfBytes?_eq_some {count : ℕ} (h : count < twoPow 61) : bitsOfBytes? count = some (8 * count) := by
  have hword : twoPow 64 = 8 * twoPow 61 := rfl
  rw [bitsOfBytes?, if_pos (by omega)]

lemma reported_align (alignment : ℕ) : Reported (c.align alignment) :=
  avoids_align nofun alignment

lemma reported_seek (position : ℕ) : Reported (c.seek position) :=
  avoids_seek nofun position

lemma reported_readUnsigned (width : ℕ) (order : ByteOrder) : Reported (c.readUnsigned width order) :=
  avoids_readUnsigned nofun nofun

lemma reported_readSigned (width : ℕ) (order : ByteOrder) : Reported (c.readSigned width order) :=
  avoids_readSigned nofun nofun

/-- **Bytes whose bits a word counts** are read, or it is reported why not. -/
lemma reported_readBytes {count : ℕ} (h : count < twoPow 61) : Reported (c.readBytes count) := by
  refine avoids_readBytes nofun ?_
  rw [bitsOfBytes?_eq_some h]
  exact Bool.false_ne_true

lemma reported_readZeroTerminated : Reported c.readZeroTerminated :=
  avoids_readZeroTerminated nofun nofun

end Cursor

end CommonTrace
