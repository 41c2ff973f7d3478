import CommonTrace.Schema.TypeTable

/-!
# Types without parts

Integers, floating point numbers and strings are described by assignments alone.  Each assignment
sets one property; an assignment with another key is noted and passed over.
-/

namespace CommonTrace

open Tsdl

namespace TypeM

def byteOrderOf (a : Assignment) : TypeM ByteOrder := do
  let keyword ← a.string
  match ByteOrder.ofKeyword? (← get).native keyword with
  | some order => return order
  | none => invalid (.byteOrder keyword)

def alignmentOf (a : Assignment) : TypeM Nat := do
  let value ← a.number
  match powerOfTwo? value with
  | some alignment => return alignment
  | none => invalid (.alignment value)

/-- The base that an attribute gives, as a number or as a word. -/
def baseOf (a : Assignment) : TypeM Nat :=
  match a.number with
  | .ok n => if n ∈ ([2, 8, 10, 16] : List Int) then return n.toNat else invalid (.base n)
  | .error _ => do
    match ← a.string with
    | "decimal" | "dec" | "d" | "i" | "u" => return 10
    | "hexadecimal" | "hex" | "x" | "X" | "p" => return 16
    | "octal" | "oct" | "o" => return 8
    | "binary" | "b" => return 2
    | keyword => invalid (.baseKeyword keyword)

def encodingOf (a : Assignment) : TypeM Encoding := do
  let keyword ← a.string
  match Encoding.ofKeyword? keyword with
  | some encoding => return encoding
  | none => invalid (.encoding keyword)

/-- The name of the clock in a text such as `clock.monotonic.value`. -/
def clockOfMap? (text : String) : Option String :=
  let opening := "clock.".toList
  let closing := ".value".toList
  if opening.isPrefixOf text.toList then
    let rest := text.toList.drop opening.length
    let name := rest.take (rest.length - closing.length)
    if closing.isSuffixOf rest && !name.isEmpty then some (String.ofList name) else none
  else none

def clockOf (a : Assignment) : TypeM String := do
  let text ← a.string
  match clockOfMap? text with
  | some clock => return clock
  | none => invalid (.clockMap text)

/-! ## Integers -/

/-- The properties of an integer that have been set, where width and alignment may be missing. -/
structure IntegerDraft where
  width : Option Nat
  alignment : Option Nat
  rest : IntegerType

def assignInteger (draft : IntegerDraft) (a : Assignment) : TypeM IntegerDraft := do
  match a.key with
  | "size" => return { draft with width := some (← a.unsigned) }
  | "signed" => return { draft with rest.signed := ← a.boolean }
  | "byte_order" => return { draft with rest.order := ← byteOrderOf a }
  | "align" => return { draft with alignment := some (← alignmentOf a) }
  | "base" => return { draft with rest.base := ← baseOf a }
  | "encoding" => return { draft with rest.encoding := ← encodingOf a }
  | "map" =>
    let clock ← clockOf a
    noteClock clock
    return { draft with rest.clock := some clock }
  | key =>
    warnAttribute "integer" key
    return draft

def integerType (node : Node) : TypeM IntegerType := do
  let start : IntegerDraft :=
    { width := none, alignment := none, rest := .plain 8 false (← get).native }
  let draft ← (← Assignment.ofChildren node).foldlM assignInteger start
  match draft.width with
  | none => invalid .integerSizeMissing
  | some width =>
    if width = 0 ∨ 64 < width then invalid (.integerSize width)
    else
      return { draft.rest with
        width, alignment := draft.alignment.getD (defaultAlignment width) }

/-! ## Floating point numbers -/

/-- The properties of a floating point type that have been set, where all but the byte order may
be missing. -/
structure FloatDraft where
  exponent : Option Nat
  mantissa : Option Nat
  order : ByteOrder
  alignment : Option Nat

def assignFloat (draft : FloatDraft) (a : Assignment) : TypeM FloatDraft := do
  match a.key with
  | "exp_dig" => return { draft with exponent := some (← a.unsigned) }
  | "mant_dig" => return { draft with mantissa := some (← a.unsigned) }
  | "byte_order" => return { draft with order := ← byteOrderOf a }
  | "align" => return { draft with alignment := some (← alignmentOf a) }
  | key =>
    warnAttribute "floating_point" key
    return draft

def floatType (node : Node) : TypeM FloatType := do
  let start : FloatDraft :=
    { exponent := none, mantissa := none, order := (← get).native, alignment := none }
  let draft ← (← Assignment.ofChildren node).foldlM assignFloat start
  match draft.exponent, draft.mantissa with
  | some exponent, some mantissa =>
    if 2 ≤ exponent ∧ 2 ≤ mantissa ∧ exponent + mantissa ≤ 64 then
      return {
        exponent, mantissa, order := draft.order,
        alignment := draft.alignment.getD (defaultAlignment (exponent + mantissa)) }
    else invalid (.floatLayout exponent mantissa)
  | _, _ => invalid .floatDigitsMissing

/-! ## Strings -/

/-- The encoding of the string type that a node describes. -/
def stringType (node : Node) : TypeM Encoding := do
  let assign (encoding : Encoding) (a : Assignment) : TypeM Encoding := do
    match a.key with
    | "encoding" => encodingOf a
    | key =>
      warnAttribute "string" key
      return encoding
  (← Assignment.ofChildren node).foldlM assign .utf8

end TypeM

end CommonTrace
