/-!
# Byte orders

A binary field is written in one of two byte orders.  The order also fixes how a field that is not
a whole number of bytes fills its bytes: a big endian field starts at the most significant bit of
its first byte, a little endian field at the least significant one.

Metadata names the orders by keyword.  The keyword `native` stands for the order that the trace
itself declares, so reading a keyword takes that order as a parameter.
-/

namespace CommonTrace

/-- The order in which the bytes of a number are stored: the most significant byte first, or the
least significant. -/
inductive ByteOrder where
  | big
  | little
deriving DecidableEq, Repr

namespace ByteOrder

/-- The order that a metadata keyword names, where `native` is the order of the trace. -/
def ofKeyword? (native : ByteOrder) : String → Option ByteOrder
  | "le" | "little" => some .little
  | "be" | "big" | "network" => some .big
  | "native" => some native
  | _ => none

/-- The number that a list of bytes spells in the given order. -/
def value : ByteOrder → List UInt8 → Nat
  | .big, bytes => bytes.foldl (fun n byte => n * 256 + byte.toNat) 0
  | .little, bytes => bytes.foldr (fun byte n => byte.toNat + n * 256) 0

@[simp] theorem value_nil (order : ByteOrder) : order.value [] = 0 := by
  cases order <;> rfl

@[simp] theorem value_little_cons (byte : UInt8) (bytes : List UInt8) :
    ByteOrder.little.value (byte :: bytes) = byte.toNat + ByteOrder.little.value bytes * 256 := rfl

@[simp] theorem value_big_concat (bytes : List UInt8) (byte : UInt8) :
    ByteOrder.big.value (bytes ++ [byte]) = ByteOrder.big.value bytes * 256 + byte.toNat := by
  simp [value, List.foldl_append]

end ByteOrder

end CommonTrace
