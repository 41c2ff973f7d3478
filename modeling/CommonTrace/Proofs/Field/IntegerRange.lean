import CommonTrace.Proofs.Field.Conformance
import CommonTrace.Proofs.Field.RoundTrip
import CommonTrace.Proofs.Schema.WellFormed

/-!
# The integers that bits can spell

The bounds of an integer type, `IntegerType.minimum` and `IntegerType.maximum`, are computed from its
width and its sign alone, without a look at data.  Decoding never computes bounds: it takes as many bits
as the width says, in the order of the type, and repeats the sign.  Both speak of the same integers
(`IntegerType.between_iff_exists_readsAs`).  For every integer between the bounds there are bits that are
read as it, and no bits are read as any other integer.  This holds in either byte order, from one bit to
sixty-four, with and without a sign.
-/

namespace CommonTrace

/-- Some data has the given bits ahead of its first bit. -/
lemma DecodeState.exists_ahead (order : ByteOrder) (bits : List Bool) :
    ∃ s : DecodeState, s.cursor.Ahead order bits := by
  let data : ByteArray := ⟨(order.pack bits).toArray⟩
  have hsize : bits.length ≤ 8 * data.size := by
    have hlength : data.size = (bits.length + 7) / 8 := by
      simp [data, ByteArray.size, ByteOrder.pack]
    omega
  refine ⟨⟨.ofBytes data, .empty⟩, Cursor.holds_pack order bits, ?_⟩
  rwa [Cursor.ofBytes, Nat.zero_add]

namespace IntegerType

variable {t : IntegerType} {bits : List Bool} {v : ℤ}

/-- **The bits are read as an integer**: wherever they are ahead of the cursor, in the byte order of the
type, a number is read whose value is the integer, and the cursor steps over the bits. -/
def ReadsAs (t : IntegerType) (bits : List Bool) (v : ℤ) : Prop :=
  ∀ s : DecodeState, s.cursor.Ahead t.order bits →
    ∃ n s', t.read s = .ok n s' ∧ n.value = v ∧ s.MovedTo (s.cursor.position + t.width) s'

/-- An integer between the bounds is what its two's complement is read as. -/
lemma WellFormed.readsAs_integerBits (ht : t.WellFormed) (hlow : t.minimum ≤ v) (hhigh : v ≤ t.maximum) :
    t.ReadsAs (integerBits t.order t.width v) v := by
  intro s hahead
  have hcarries : t.order.Carries t.width t.order := ⟨ht.width_pos, ht.width_le, rfl⟩
  have hshown : ∀ _ : Arena, True := fun _ => trivial
  obtain ⟨c, hread, hmoved, -⟩ := givesBack_read hcarries hlow hhigh hahead hshown
  exact ⟨_, _, hread, rfl, rfl, hmoved⟩

/-- What bits are read as lies between the bounds. -/
lemma ReadsAs.between (h : t.ReadsAs bits v) : t.minimum ≤ v ∧ v ≤ t.maximum := by
  obtain ⟨s, hahead⟩ := DecodeState.exists_ahead t.order bits
  obtain ⟨n, s', hread, rfl, -⟩ := h s hahead
  obtain ⟨hreads, -⟩ := t.reads_of_read hread
  exact ⟨hreads.minimum_le, hreads.le_maximum⟩

/-- **The bounds of a type are those of its bits.**  An integer lies between them if and only if some bits,
as many as the type is wide, are read as this integer. -/
theorem between_iff_exists_readsAs (ht : t.WellFormed) (v : ℤ) :
    (t.minimum ≤ v ∧ v ≤ t.maximum) ↔ ∃ bits : List Bool, bits.length = t.width ∧ t.ReadsAs bits v := by
  constructor
  · rintro ⟨hlow, hhigh⟩
    exact ⟨_, length_integerBits t.order t.width v, ht.readsAs_integerBits hlow hhigh⟩
  · rintro ⟨bits, -, hreads⟩
    exact hreads.between

/-- The byte order of a type has no part in its being well formed. -/
lemma WellFormed.withOrder (ht : t.WellFormed) (order : ByteOrder) :
    ({ t with order } : IntegerType).WellFormed :=
  ⟨ht.width_pos, ht.width_le, ht.alignment, ht.base⟩

end IntegerType

end CommonTrace
