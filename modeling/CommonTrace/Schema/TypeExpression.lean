import CommonTrace.Schema.ScalarType

/-!
# Building types

A type is described by a list of specifiers: one node for a type without a name, or the words of a
name.  An enumeration, a structure or a variant may have a name, a body or both.  With a body alone
it is described where it stands; with both it is described and its name becomes known; with a name
alone it refers to a type described elsewhere.

Each description consists of smaller ones and of references.  The functions below say what one
description means when the meaning of those is given: `build` gives the type of a list of specifiers
in a scope, and `resolve` that of a name.  `TypeM.buildSpecifiers` ties the two together.

## How far references reach

Types refer to types, so building one may lead to building another, and the nesting of these steps
is not bounded by the nesting of the tree.  It is bounded all the same: a step follows either a part
of the tree or the entry of a name, which it uses up.  A body opens a scope with entries of its own
each time it is built, and that is as often as its type is declared under different names.
`Node.weight` counts all these steps for a tree, so that no chain of them is longer.
-/

namespace CommonTrace

open Tsdl

namespace Tsdl.Node

/-- The number of names that a declaration gives to its type. -/
def declaratorCount (node : Node) : Nat :=
  match node.child? .typeDeclaratorList with
  | some list => (list.childrenOf .typeDeclarator).length
  | none => 0

mutual

/-- The number of steps that building everything described in a tree can take: one for each node,
and the parts of a declaration once for each of its names. -/
def weight : Node → Nat
  | ⟨kind, text, children⟩ =>
    1 + max 1 (declaratorCount ⟨kind, text, children⟩) * weightOfAll children

def weightOfAll : List Node → Nat
  | [] => 0
  | node :: rest => node.weight + weightOfAll rest

end

end Tsdl.Node

namespace TypeM

/-! ## Arrays and sequences -/

def withLength (element : FieldType) (length : Node) : TypeM FieldType := do
  match length.children with
  | [] => malformed .lengthEmpty
  | first :: _ =>
    if first.isNumber then
      let n ← numberOf first
      if FitsUnsigned 64 n then return .array element n.toNat else invalid (.negativeLength n)
    else
      let text ← joinStrings length.children
      match FieldPath.ofString? text with
      | some path => return .sequence element path
      | none => invalid (.sequenceLength text)

/-- The type that a declarator makes of another.  The length written last is that of the innermost
array. -/
def applyDeclarator (t : FieldType) (declarator : Node) : TypeM FieldType := do
  if declarator.hasChild .pointer then invalid .pointer
  (declarator.childrenOf .length).reverse.foldlM withLength t

/-- Stops at a field that is a variant without a tag, or an array of such. -/
def checkTagged (name : String) : FieldType → TypeM Unit
  | .variant none _ => invalid (.variantFieldUntagged name)
  | .array element _ => checkTagged name element
  | .sequence element _ => checkTagged name element
  | _ => pure ()

def buildType (build : TypeScopeId → Node → TypeM FieldType) (scope : TypeScopeId)
    (specifiers : Node) (declarator : Option Node) : TypeM FieldType := do
  let t ← build scope specifiers
  match declarator with
  | some declarator => applyDeclarator t declarator
  | none => return t

/-! ## References -/

/-- The type of a name, which is built now if nothing has referred to it before. -/
def resolveNamed (build : TypeScopeId → Node → TypeM FieldType) (scope : TypeScopeId)
    (name : String) : TypeM FieldType := do
  match (← get).nearest? scope name with
  | none => throw (.unknownType name)
  | some (_, .built t) => return t
  | some (_, .inProgress) => throw (.recursiveType name)
  | some (home, .pending source) =>
    modify fun table => table.setEntry home name .inProgress
    let t ← buildType build home source.specifiers source.declarator
    modify fun table => table.setEntry home name (.built t)
    return t

/-- Builds every type that has a name in the scope, so that faults in unused types come to light. -/
def resolveAll (resolve : TypeScopeId → String → TypeM FieldType) (scope : TypeScopeId) :
    TypeM Unit := do
  ((← get).names scope).forM fun name => do
    let _ ← resolve scope name

/-! ## Enumerations -/

/-- The integers that an enumerator stands for, where `next` is the one behind the enumerator before
it. -/
def enumeratorBounds (next : Int) (enumerator : Node) : TypeM (Int × Int) := do
  match enumerator.child? .enumValue, enumerator.child? .enumValueRange with
  | some value, _ =>
    let n ← onlyNumber value
    return (n, n)
  | none, some range =>
    match range.children with
    | [low, high] => return (← numberOf low, ← numberOf high)
    | _ => malformed .twoBoundsExpected
  | none, none => return (next, next)

/-- Adds an enumerator to those before it, which are given with the integer that comes next. -/
def addEnumerator (container : IntegerType) (before : List LabelRange × Int) (enumerator : Node) :
    TypeM (List LabelRange × Int) := do
  let label ← joinStrings (enumerator.children.takeWhile Node.isString)
  let (low, high) ← enumeratorBounds before.2 enumerator
  if high < low ∨ low < container.minimum ∨ container.maximum < high then
    invalid (.labelRange label low high)
  return (before.1 ++ [{ label, low, high }], high + 1)

/-- The type of the integers of an enumeration: the one it names, or the type named `int`. -/
def containerType (resolve : TypeScopeId → String → TypeM FieldType)
    (build : TypeScopeId → Node → TypeM FieldType) (scope : TypeScopeId) (node : Node) :
    TypeM IntegerType := do
  let t ← match node.child? .enumContainerType with
    | some container => do
      let specifiers ← require container .typeSpecifierList .containerTypeMissing
      build scope specifiers
    | none => resolve scope "int"
  match t with
  | .integer t => return t
  | t => invalid (.enumContainer t.kind)

/-- How a compound type is described: by a name that refers to it, or by a body and perhaps the
name by which it becomes known. -/
inductive Description where
  | reference (name : String)
  | definition (name : Option String) (body : Node)

/-- How a node describes its compound type, where `word` is what comes before the names of such
types. -/
def describe (node : Node) (word : String) (nameKind bodyKind : NodeKind) (fault : Malformed) :
    TypeM Description :=
  let name := (node.child? nameKind).map fun name => s!"{word} {name.text}"
  match node.child? bodyKind, name with
  | some body, name => return .definition name body
  | none, some name => return .reference name
  | none, none => malformed fault

def makeKnown (scope : TypeScopeId) (name : Option String) (t : FieldType) : TypeM Unit :=
  match name with
  | some name => enterBuilt scope name t
  | none => pure ()

def buildEnum (resolve : TypeScopeId → String → TypeM FieldType)
    (build : TypeScopeId → Node → TypeM FieldType) (scope : TypeScopeId) (node : Node) :
    TypeM FieldType := do
  match ← describe node "enum" .enumName .enumBody .enumNameMissing with
  | .reference name => resolve scope name
  | .definition name body =>
    let container ← containerType resolve build scope node
    let (ranges, _) ← (body.childrenOf .enumerator).foldlM (addEnumerator container) ([], 0)
    let t := FieldType.enum { container, ranges }
    makeKnown scope name t
    return t

/-! ## Structures and variants -/

/-- Adds a member to those before it, where `owner` is what a structure or a variant is called. -/
def addMember (build : TypeScopeId → Node → TypeM FieldType) (scope : TypeScopeId) (owner : String)
    (specifiers : Node) (before : List (String × FieldType)) (declarator : Node) :
    TypeM (List (String × FieldType)) := do
  let name ← declaratorName declarator
  if (before.lookup name).isSome then throw (.repeated (.member owner name))
  let t ← buildType build scope specifiers (some declarator)
  checkTagged name t
  return before ++ [(name, t)]

def addMembers (build : TypeScopeId → Node → TypeM FieldType) (scope : TypeScopeId) (owner : String)
    (before : List (String × FieldType)) (declaration : Node) :
    TypeM (List (String × FieldType)) := do
  let specifiers ← require declaration .typeSpecifierList .fieldTypeMissing
  let declarators ← require declaration .typeDeclaratorList .fieldNameMissing
  (declarators.childrenOf .typeDeclarator).foldlM (addMember build scope owner specifiers) before

/-- The members that a body describes.  The body is a scope for the types declared in it. -/
def buildMembers (resolve : TypeScopeId → String → TypeM FieldType)
    (build : TypeScopeId → Node → TypeM FieldType) (outer : TypeScopeId) (owner : String)
    (body : Node) : TypeM (List (String × FieldType)) := do
  let scope ← openScope outer
  enterAll scope body.children
  let members ← (body.childrenOf .fieldDeclaration).foldlM (addMembers build scope owner) []
  resolveAll resolve scope
  return members

def declaredAlignment (node : Node) : TypeM Nat := do
  match node.child? .structAlign with
  | none => return 1
  | some align =>
    let value ← onlyNumber align
    match powerOfTwo? value with
    | some alignment => return alignment
    | none => invalid (.structAlignment value)

def buildStruct (resolve : TypeScopeId → String → TypeM FieldType)
    (build : TypeScopeId → Node → TypeM FieldType) (scope : TypeScopeId) (node : Node) :
    TypeM FieldType := do
  match ← describe node "struct" .structName .structBody .structNameMissing with
  | .reference name => resolve scope name
  | .definition name body =>
    let alignment ← declaredAlignment node
    let fields ← buildMembers resolve build scope "struct" body
    let t := FieldType.struct alignment fields
    makeKnown scope name t
    return t

def declaredTag (node : Node) : TypeM (Option FieldPath) := do
  match node.child? .variantTag with
  | none => return none
  | some tag =>
    let text ← joinStrings tag.children
    match FieldPath.ofString? text with
    | some path => return some path
    | none => invalid (.variantTag text)

/-- A type with the tag that is declared where it is used, if it is a variant and there is one. -/
def withTag (t : FieldType) (tag : Option FieldPath) : FieldType :=
  match t, tag with
  | .variant _ alternatives, some tag => .variant (some tag) alternatives
  | t, _ => t

def buildVariant (resolve : TypeScopeId → String → TypeM FieldType)
    (build : TypeScopeId → Node → TypeM FieldType) (scope : TypeScopeId) (node : Node) :
    TypeM FieldType := do
  let tag ← declaredTag node
  match ← describe node "variant" .variantName .variantBody .variantNameMissing with
  | .reference name => return withTag (← resolve scope name) tag
  | .definition name body =>
    let alternatives ← buildMembers resolve build scope "variant" body
    if alternatives.isEmpty then invalid .variantEmpty
    let t := FieldType.variant tag alternatives
    makeKnown scope name t
    return t

/-! ## All types -/

/-- The type that specifiers describe, where the types of smaller descriptions and of names are
given. -/
def interpret (resolve : TypeScopeId → String → TypeM FieldType)
    (build : TypeScopeId → Node → TypeM FieldType) (scope : TypeScopeId) (specifiers : Node) :
    TypeM FieldType := do
  match specifiers.children with
  | [] => malformed .specifierEmpty
  | first :: _ =>
    match first.kind with
    | .integer => return .integer (← integerType first)
    | .floatingPoint => return .float (← floatType first)
    | .string => return .string (← stringType first)
    | .enum => buildEnum resolve build scope first
    | .struct => buildStruct resolve build scope first
    | .variant => buildVariant resolve build scope first
    | .typeName => resolve scope (← wordsName specifiers)
    | kind => malformed (.unexpectedSpecifier kind)

/-- The type that specifiers describe in a scope, built in at most `depth` nested steps. -/
def buildSpecifiers : Nat → TypeScopeId → Node → TypeM FieldType
  | 0, _, _ => throw .chainTooLong
  | depth + 1, scope, specifiers =>
    let build := buildSpecifiers depth
    interpret (resolveNamed build) build scope specifiers

end TypeM

end CommonTrace
