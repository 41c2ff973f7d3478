import CommonTrace.Tsdl.Tree
import Mathlib.Data.Nat.Notation

/-!
# Writing trees down

Abbreviations for the nodes of small trees, in which the examples of this library are written.
-/

namespace CommonTrace.Tsdl.Node

/-- A node with a text. -/
def word (kind : NodeKind) (text : String) : Node :=
  { kind, text, children := [] }

/-- A node with children. -/
def block (kind : NodeKind) (children : List Node) : Node :=
  { kind, text := "", children }

/-- An assignment of a value. -/
def value (key : String) (node : Node) : Node :=
  block .ctfExpressionVal [block .ctfLeft [word .unaryString key], block .ctfRight [node]]

/-- An assignment of a type. -/
def type (key : String) (specifier : Node) : Node :=
  block .ctfExpressionType
    [block .ctfLeft [word .unaryString key],
      block .ctfRight [block .typeSpecifierList [specifier]]]

/-- An integer of a number of bits, which is written in decimal. -/
def integer (width : String) : Node :=
  block .integer [value "size" (word .unaryDec width)]

/-- A structure with the given members. -/
def struct (members : List Node) : Node :=
  block .struct [block .structBody members]

/-- A member, of the type that the lengths make of the specifier. -/
def member (specifier : Node) (name : String) (lengths : List Node) : Node :=
  block .fieldDeclaration
    [block .typeSpecifierList [specifier],
      block .typeDeclaratorList
        [block .typeDeclarator (word .identifier name :: lengths.map fun length =>
          block .length [length])]]

end CommonTrace.Tsdl.Node
