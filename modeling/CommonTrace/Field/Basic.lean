import CommonTrace.FieldType.Basic
import CommonTrace.Bit.Cursor

/-!
# Decoded fields

A `Field` is a value with the name and the type under which it was read.  Scalars and texts carry
their value.  A structure does not hold its fields: it points at the scope in which they are kept,
because while it is being decoded its fields can already be referred to.
-/

namespace CommonTrace

/-- The number of a scope among the scopes decoded together. -/
abbrev ScopeId := Nat

/-- An integer as it was read, with the number of its bits and whether they are two's complement. -/
structure IntegerValue where
  value : Int
  width : Nat
  signed : Bool
deriving DecidableEq, Repr

namespace IntegerValue

/-- The integer that sixty-four bits stand for. -/
def ofWord (word width : Nat) (signed : Bool) : IntegerValue where
  value := if signed then signExtend word 64 else word % twoPow 64
  width
  signed

/-- The low sixty-four bits of the integer in two's complement. -/
def word (n : IntegerValue) : Nat :=
  (n.value % twoPow 64).toNat

/-- The integer as a natural number of sixty-four bits. -/
def unsigned? (n : IntegerValue) : Option Nat :=
  if FitsUnsigned 64 n.value then some n.value.toNat else none

/-- The integer, if it has a two's complement form of sixty-four bits. -/
def signed? (n : IntegerValue) : Option Int :=
  if FitsSigned 64 n.value then some n.value else none

end IntegerValue

mutual

/-- A decoded value.  A text is a string, or what an array or a sequence of characters holds
before its first zero byte.  A structure is the scope in which its fields are, and a variant is
the alternative that its tag selects. -/
inductive Value where
  | integer (n : IntegerValue)
  | float (x : Binary64)
  | text (s : String)
  | enum (n : IntegerValue) (label : Option String)
  | struct (scope : ScopeId)
  | variant (selection : String) (inner : Field)
  | array (elements : List Field)
  | sequence (elements : List Field)
deriving Repr

/-- A decoded value with its name and type. -/
structure Field where
  name : String
  type : FieldType
  value : Value
deriving Repr

end

namespace Field

def integer? (f : Field) : Option IntegerValue :=
  match f.value with
  | .integer n => some n
  | .enum n _ => some n
  | _ => none

def unsigned? (f : Field) : Option Nat :=
  f.integer?.bind IntegerValue.unsigned?

def signed? (f : Field) : Option Int :=
  f.integer?.bind IntegerValue.signed?

def float? (f : Field) : Option Binary64 :=
  match f.value with
  | .float x => some x
  | _ => none

def text? (f : Field) : Option String :=
  match f.value with
  | .text s => some s
  | _ => none

def label? (f : Field) : Option String :=
  match f.value with
  | .enum _ label => label
  | _ => none

def elements? (f : Field) : Option (List Field) :=
  match f.value with
  | .array elements => some elements
  | .sequence elements => some elements
  | _ => none

end Field

end CommonTrace
