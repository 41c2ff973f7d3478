import CommonTrace.Numeric.Numeral
import CommonTrace.Schema.Error

/-!
# Assignments

Blocks and types say what they are by assignments.  An `Assignment` has a key, which is a text put
together from pieces of a name, and a value, which is a list of nodes.  The value is read as what
its key demands: a string, a number, a truth value or a type.
-/

namespace CommonTrace

open Tsdl

def malformed {α : Type} (fault : Malformed) : Except SchemaError α :=
  .error (.malformed fault)

def invalid {α : Type} (fault : Invalid) : Except SchemaError α :=
  .error (.invalid fault)

/-! ## Texts and numbers -/

/-- What stands between a piece of a name and the pieces before it. -/
def linkText (node : Node) : String :=
  if node.hasChild .dot then "." else if node.hasChild .arrow then "->" else ""

/-- The text that pieces of a name spell.  A piece that is linked by a dot or an arrow is joined
with that link, another one directly; a link before the first piece does not count. -/
def joinStrings (nodes : List Node) : Except SchemaError String := do
  match nodes.find? fun node => !node.isString with
  | some node => malformed (.stringExpected node.kind)
  | none =>
    let pieces := match nodes with
      | [] => []
      | first :: rest => first.text :: rest.map fun node => linkText node ++ node.text
    let text := String.join pieces
    if text.isEmpty then malformed .nameEmpty else return text

/-- The digits of a number, without the letters behind it that give its size in C. -/
def withoutSuffix (text : List Char) : List Char :=
  (text.reverse.dropWhile fun c => c = 'u' || c = 'U' || c = 'l' || c = 'L').reverse

/-- The number that a literal of the given kind stands for. -/
def literalValue? (kind : NodeKind) (text : List Char) : Option Int :=
  match kind, text with
  | .unaryDec, digits => Numeral.integer? 10 digits
  | .unaryHex, '0' :: 'x' :: digits => Numeral.integer? 16 digits
  | .unaryHex, '0' :: 'X' :: digits => Numeral.integer? 16 digits
  | .unaryOct, text =>
    let digits := text.dropWhile (· = '0')
    if digits.isEmpty then some 0 else Numeral.integer? 8 digits
  | _, _ => none

/-- The number that a node stands for.  A minus is applied in a hundred and twenty-eight bits, where
the least number is its own negative if the arithmetic is not checked. -/
def numberOf (node : Node) : Except SchemaError Int :=
  match literalValue? node.kind (withoutSuffix node.text.toList) with
  | none => malformed (.notANumber node.text)
  | some n => return if node.hasChild .minus then Int.bmod (-n) (twoPow 128) else n

def onlyNumber (node : Node) : Except SchemaError Int :=
  match node.children with
  | [number] => numberOf number
  | _ => malformed .singleNumberExpected

/-- An integer that is a power of two of at most sixty-four bits. -/
def powerOfTwo? (n : Int) : Option Nat :=
  let m := n.toNat
  if FitsUnsigned 64 n ∧ m = twoPow m.log2 then some m else none

/-! ## Assignments -/

/-- A key and the nodes of its value. -/
structure Assignment where
  key : String
  value : List Node
deriving Repr

namespace Assignment

def ofNode (node : Node) : Except SchemaError Assignment := do
  match node.child? .ctfLeft, node.child? .ctfRight with
  | none, _ => malformed .leftSideMissing
  | some _, none => malformed .rightSideMissing
  | some left, some right => return { key := ← joinStrings left.children, value := right.children }

def ofChildren (node : Node) : Except SchemaError (List Assignment) :=
  (node.childrenOf .ctfExpressionVal).mapM ofNode

def mustBe {α : Type} (a : Assignment) (expected : Expected) : Except SchemaError α :=
  invalid (.attribute a.key expected)

def string (a : Assignment) : Except SchemaError String :=
  match joinStrings a.value with
  | .ok text => .ok text
  | .error _ => a.mustBe .string

def number (a : Assignment) : Except SchemaError Int :=
  match a.value with
  | [node] =>
    match numberOf node with
    | .ok n => .ok n
    | .error _ => a.mustBe .number
  | _ => a.mustBe .number

def unsigned (a : Assignment) : Except SchemaError Nat := do
  let n ← a.number
  if FitsUnsigned 64 n then return n.toNat else a.mustBe .unsigned

def signed (a : Assignment) : Except SchemaError Int := do
  let n ← a.number
  if FitsSigned 64 n then return n else a.mustBe .signed

/-- The value as a truth value: a word in letters of either case, or 0 or 1. -/
def boolean (a : Assignment) : Except SchemaError Bool :=
  match a.number with
  | .ok n => if n = 0 then .ok false else if n = 1 then .ok true else a.mustBe .boolean
  | .error _ => do
    match (← a.string).toLower with
    | "true" => return true
    | "false" => return false
    | _ => a.mustBe .boolean

def type (a : Assignment) : Except SchemaError Node :=
  match a.value.find? (·.kind = .typeSpecifierList) with
  | some specifiers => .ok specifiers
  | none => a.mustBe .type

/-- The arrays and sequences that are made of the type. -/
def declarator? (a : Assignment) : Option Node :=
  a.value.find? (·.kind = .typeDeclarator)

end Assignment

end CommonTrace
