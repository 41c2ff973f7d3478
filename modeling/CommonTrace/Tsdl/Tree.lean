/-!
# Syntax trees of metadata

Metadata is written in the Trace Stream Description Language.  Its grammar is not part of this
library: a parser hands over the tree of a text, and all further work is on the tree.  A node has a
kind, the text of its token, and children in the order of the text:

```text
Root        → Trace | Stream | Event | Clock | Env | Callsite
              | TypeAlias | TypeDef | TypeDeclaration
Trace, ...  → CtfExpressionVal | CtfExpressionType | TypeAlias | TypeDef | TypeDeclaration
CtfExpressionVal  → CtfLeft(unary strings) CtfRight(unary expressions)
CtfExpressionType → CtfLeft(unary strings) CtfRight(TypeSpecifierList [TypeDeclarator])
unary string      → UnaryString | UnaryStringQuotes, with a Dot or Arrow child if linked
number            → UnaryDec | UnaryHex | UnaryOct, with a Minus child if negative
TypeSpecifierList → TypeName+ | Integer | FloatingPoint | String | Enum | Struct | Variant
FieldDeclaration  → TypeSpecifierList TypeDeclaratorList
TypeDeclarator    → Identifier Length* [Pointer]
Length            → number | unary strings
TypeAlias         → TypeAliasTarget(TypeSpecifierList [TypeDeclarator])
                    TypeAliasAlias(TypeSpecifierList | TypeDeclarator)
TypeDef           → TypeSpecifierList TypeDeclaratorList
TypeDeclaration   → TypeSpecifierList
Integer, FloatingPoint, String → CtfExpressionVal*
Enum    → [EnumName] [EnumContainerType(TypeSpecifierList)] [EnumBody(Enumerator*)]
Enumerator → unary strings [EnumValue(number) | EnumValueRange(number number)]
Struct  → [StructName] [StructBody(FieldDeclaration | TypeAlias | ...)*] [StructAlign(number)]
Variant → [VariantName] [VariantTag(unary strings)] [VariantBody(FieldDeclaration | ...)*]
```

Nothing is assumed of a tree that does not have this form; the builders of the schema report it.
-/

namespace CommonTrace.Tsdl

/-- The kind of a node. -/
inductive NodeKind where
  | root | trace | stream | event | clock | env | callsite
  | ctfExpressionVal | ctfExpressionType | ctfLeft | ctfRight
  | unaryString | unaryStringQuotes | unaryDec | unaryHex | unaryOct | dot | arrow | minus
  | typeAlias | typeAliasTarget | typeAliasAlias | typeDef | typeDeclaration
  | typeSpecifierList | typeDeclaratorList | typeDeclarator | typeName
  | identifier | length | pointer
  | integer | floatingPoint | string
  | enum | enumName | enumContainerType | enumBody | enumerator | enumValue | enumValueRange
  | struct | structName | structBody | structAlign
  | variant | variantName | variantTag | variantBody
  | fieldDeclaration
deriving DecidableEq, Repr

def NodeKind.name : NodeKind → String
  | root => "Root"
  | trace => "Trace"
  | stream => "Stream"
  | event => "Event"
  | clock => "Clock"
  | env => "Env"
  | callsite => "Callsite"
  | ctfExpressionVal => "CtfExpressionVal"
  | ctfExpressionType => "CtfExpressionType"
  | ctfLeft => "CtfLeft"
  | ctfRight => "CtfRight"
  | unaryString => "UnaryString"
  | unaryStringQuotes => "UnaryStringQuotes"
  | unaryDec => "UnaryDec"
  | unaryHex => "UnaryHex"
  | unaryOct => "UnaryOct"
  | dot => "Dot"
  | arrow => "Arrow"
  | minus => "Minus"
  | typeAlias => "TypeAlias"
  | typeAliasTarget => "TypeAliasTarget"
  | typeAliasAlias => "TypeAliasAlias"
  | typeDef => "TypeDef"
  | typeDeclaration => "TypeDeclaration"
  | typeSpecifierList => "TypeSpecifierList"
  | typeDeclaratorList => "TypeDeclaratorList"
  | typeDeclarator => "TypeDeclarator"
  | typeName => "TypeName"
  | identifier => "Identifier"
  | length => "Length"
  | pointer => "Pointer"
  | integer => "Integer"
  | floatingPoint => "FloatingPoint"
  | string => "String"
  | enum => "Enum"
  | enumName => "EnumName"
  | enumContainerType => "EnumContainerType"
  | enumBody => "EnumBody"
  | enumerator => "Enumerator"
  | enumValue => "EnumValue"
  | enumValueRange => "EnumValueRange"
  | struct => "Struct"
  | structName => "StructName"
  | structBody => "StructBody"
  | structAlign => "StructAlign"
  | variant => "Variant"
  | variantName => "VariantName"
  | variantTag => "VariantTag"
  | variantBody => "VariantBody"
  | fieldDeclaration => "FieldDeclaration"

def NodeKind.all : List NodeKind :=
  [root, trace, stream, event, clock, env, callsite, ctfExpressionVal, ctfExpressionType, ctfLeft,
    ctfRight, unaryString, unaryStringQuotes, unaryDec, unaryHex, unaryOct, dot, arrow, minus,
    typeAlias, typeAliasTarget, typeAliasAlias, typeDef, typeDeclaration, typeSpecifierList,
    typeDeclaratorList, typeDeclarator, typeName, identifier, length, pointer, integer,
    floatingPoint, string, enum, enumName, enumContainerType, enumBody, enumerator, enumValue,
    enumValueRange, struct, structName, structBody, structAlign, variant, variantName, variantTag,
    variantBody, fieldDeclaration]

def NodeKind.ofName? (name : String) : Option NodeKind :=
  all.find? (·.name == name)

/-- A name stands for one kind only. -/
theorem NodeKind.ofName?_name (kind : NodeKind) : ofName? kind.name = some kind := by
  cases kind <;> decide +kernel

/-- A node of a syntax tree.  Blocks and lists have no text, and children are in the order of the
text. -/
structure Node where
  kind : NodeKind
  text : String
  children : List Node
deriving Repr

namespace Node

def child? (node : Node) (kind : NodeKind) : Option Node :=
  node.children.find? (·.kind = kind)

def childrenOf (node : Node) (kind : NodeKind) : List Node :=
  node.children.filter (·.kind = kind)

def hasChild (node : Node) (kind : NodeKind) : Bool :=
  (node.child? kind).isSome

/-- Whether the node is a piece of a name or of a text. -/
def isString (node : Node) : Bool :=
  node.kind = .unaryString || node.kind = .unaryStringQuotes

def isNumber (node : Node) : Bool :=
  node.kind = .unaryDec || node.kind = .unaryHex || node.kind = .unaryOct

end Node

end CommonTrace.Tsdl
