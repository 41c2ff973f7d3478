import CommonTrace.FieldType.Scalar
import CommonTrace.Name.FieldPath

/-!
# Field types

A `FieldType` says how one field of a trace is laid out in bits.  Types are trees: scalars and
strings are the leaves, arrays and sequences have an element type, structures and variants have
named members.  The length of a sequence and the tag that selects the alternative of a variant are
values of other fields, given by path.

## Main definitions

* `FieldType.alignment`: what the position of a value is a multiple of.
* `FieldType.occupiesNoBits`: whether all values take no bits at all.
-/

namespace CommonTrace

/-- The layout of a field.  A string ends with a zero byte.  Another field says how many elements
a sequence has, and which alternative of a variant is selected; a variant that has been given a
name may lack that tag until it is used.  A structure is aligned to at least `alignment` bits. -/
inductive FieldType where
  | integer (t : IntegerType)
  | float (t : FloatType)
  | string (encoding : Encoding)
  | enum (t : EnumType)
  | array (element : FieldType) (length : Nat)
  | sequence (element : FieldType) (length : FieldPath)
  | struct (alignment : Nat) (fields : List (String × FieldType))
  | variant (tag : Option FieldPath) (alternatives : List (String × FieldType))
deriving Repr

namespace FieldType

def kind : FieldType → String
  | .integer _ => "integer"
  | .float _ => "floating_point"
  | .string _ => "string"
  | .enum _ => "enum"
  | .array _ _ => "array"
  | .sequence _ _ => "sequence"
  | .struct _ _ => "struct"
  | .variant _ _ => "variant"

/-- The type of the integers that make up a value. -/
def integer? : FieldType → Option IntegerType
  | .integer t => some t
  | .enum t => some t.container
  | _ => none

def isStruct : FieldType → Bool
  | .struct _ _ => true
  | _ => false

def isCharacter : FieldType → Bool
  | .integer t => t.isCharacter
  | _ => false

/-- The clock whose cycles the values count. -/
def clock? (t : FieldType) : Option String :=
  t.integer?.bind IntegerType.clock

mutual

/-- The number of bits that the position of a value is a multiple of. -/
def alignment : FieldType → Nat
  | .integer t => t.alignment
  | .float t => t.alignment
  | .string _ => 8
  | .enum t => t.container.alignment
  | .array element _ => element.alignment
  | .sequence element _ => element.alignment
  | .struct least fields => max (max least 1) (alignmentOfMembers fields)
  | .variant _ _ => 1

def alignmentOfMembers : List (String × FieldType) → Nat
  | [] => 1
  | (_, t) :: rest => max t.alignment (alignmentOfMembers rest)

end

mutual

/-- Whether a value takes no bits, whatever it is. -/
def occupiesNoBits : FieldType → Bool
  | .integer _ | .float _ | .string _ | .enum _ => false
  | .array element length => length = 0 || element.occupiesNoBits
  | .sequence element _ => element.occupiesNoBits
  | .struct _ fields => membersOccupyNoBits fields
  | .variant _ alternatives => membersOccupyNoBits alternatives

def membersOccupyNoBits : List (String × FieldType) → Bool
  | [] => true
  | (_, t) :: rest => t.occupiesNoBits && membersOccupyNoBits rest

end

def field? : FieldType → String → Option FieldType
  | .struct _ fields, name => fields.lookup name
  | _, _ => none

def alternative? : FieldType → String → Option FieldType
  | .variant _ alternatives, name => alternatives.lookup name
  | _, _ => none

/-- The member that a path descends into: a field of a structure, an alternative of a variant or, if
none has the name, a field of the first alternative that is a structure with such a field. -/
def member? (t : FieldType) (name : String) : Option FieldType :=
  match t with
  | .struct _ fields => fields.lookup name
  | .variant _ alternatives =>
    (alternatives.lookup name).or
      (alternatives.findSome? fun (_, alternative) => alternative.field? name)
  | _ => none

def descend? (t : FieldType) (names : List String) : Option FieldType :=
  names.foldlM member? t

end FieldType

end CommonTrace
