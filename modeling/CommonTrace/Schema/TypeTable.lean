import CommonTrace.Dictionary
import CommonTrace.FieldType.Basic
import CommonTrace.Schema.Assignment

/-!
# Named types

Metadata gives names to types, and a name is visible in the scope in which it is declared: the whole
metadata, a block, or the body of a structure or a variant.  A `TypeTable` holds these scopes.

A name is first entered with the nodes that describe its type, and the type is built when something
refers to it, so that the order of declarations does not matter.  While a type is being built its
entry is marked; a reference that meets the mark has come back to where it started, and the type
would be made of itself.

Besides the names, the table collects what building types brings to light: the clocks that integers
refer to, and the attributes that were passed over.
-/

namespace CommonTrace

open Tsdl

/-- The number of a scope of type names. -/
abbrev TypeScopeId := Nat

/-- The nodes that describe a named type: the type, and the arrays and sequences that are made of
it. -/
structure TypeSource where
  specifiers : Node
  declarator : Option Node

/-- What is known of a named type: it has not been referred to yet, or is being built, or is
known. -/
inductive TypeEntry where
  | pending (source : TypeSource)
  | inProgress
  | built (t : FieldType)

/-- The type names of one scope, and the scope around it. -/
structure TypeScope where
  parent : Option TypeScopeId
  entries : Dictionary String TypeEntry

/-- The type names of all scopes, of which scope 0 is that of the whole metadata, and what has
come to light while types were built.  The native byte order is that of types that declare none,
and the clocks are in the order in which integers refer to them. -/
structure TypeTable where
  native : ByteOrder
  scopes : Array TypeScope
  clocks : Array String
  warnings : Array Warning

abbrev TypeM := StateT TypeTable (Except SchemaError)

namespace TypeTable

def rootScope : TypeScopeId := 0

def empty (native : ByteOrder) : TypeTable where
  native
  scopes := #[⟨none, .empty⟩]
  clocks := #[]
  warnings := #[]

def lookup? (table : TypeTable) (scope : TypeScopeId) (name : String) : Option TypeEntry :=
  table.scopes[scope]?.bind (·.entries.get? name)

/-- The given scope and, as far as `depth` reaches, the scopes around it, nearest first. -/
def outwards (table : TypeTable) : Nat → TypeScopeId → List TypeScopeId
  | 0, _ => []
  | depth + 1, scope =>
    scope :: match table.scopes[scope]?.bind TypeScope.parent with
      | some parent => table.outwards depth parent
      | none => []

/-- The nearest scope around the given one that has an entry for the name, with the entry. -/
def nearest? (table : TypeTable) (scope : TypeScopeId) (name : String) :
    Option (TypeScopeId × TypeEntry) :=
  (table.outwards table.scopes.size scope).findSome? fun id => (table.lookup? id name).map (id, ·)

/-- The names of one scope, in alphabetical order. -/
def names (table : TypeTable) (scope : TypeScopeId) : List String :=
  match table.scopes[scope]? with
  | some s => s.entries.keys
  | none => []

def setEntry (table : TypeTable) (scope : TypeScopeId) (name : String) (entry : TypeEntry) :
    TypeTable :=
  { table with
    scopes := table.scopes.modify scope fun s => { s with entries := s.entries.insert name entry } }

end TypeTable

namespace TypeM

def malformed {α : Type} (fault : Malformed) : TypeM α :=
  throw (.malformed fault)

def invalid {α : Type} (fault : Invalid) : TypeM α :=
  throw (.invalid fault)

/-- A child that the grammar demands. -/
def require (node : Node) (kind : NodeKind) (fault : Malformed) : TypeM Node :=
  match node.child? kind with
  | some child => return child
  | none => malformed fault

def warnAttribute (owner key : String) : TypeM Unit :=
  modify fun table => { table with warnings := table.warnings.push (.attribute owner key) }

def noteClock (clock : String) : TypeM Unit :=
  modify fun table => { table with clocks := table.clocks.push clock }

def openScope (parent : TypeScopeId) : TypeM TypeScopeId :=
  modifyGet fun table =>
    (table.scopes.size, { table with scopes := table.scopes.push ⟨some parent, .empty⟩ })

/-! ## Entering names -/

def declaratorName (declarator : Node) : TypeM String :=
  match declarator.child? .identifier with
  | none => malformed .identifierMissing
  | some identifier =>
    if identifier.text.isEmpty then malformed .identifierMissing else return identifier.text

/-- The name of a type that is written in words, without `const`. -/
def wordsName (specifiers : Node) : TypeM String :=
  match (specifiers.childrenOf .typeName).filter fun word => word.text ≠ "const" with
  | [] => malformed .typeNameEmpty
  | words => return " ".intercalate (words.map Node.text)

def aliasName (aliased : Node) : TypeM String := do
  match aliased.child? .typeSpecifierList with
  | some specifiers => wordsName specifiers
  | none => declaratorName (← require aliased .typeDeclarator .aliasNameMissing)

/-- The name under which a compound type with a name and a body is known. -/
def compoundName? (node : Node) : Option String := do
  let (word, nameKind, bodyKind) ← match node.kind with
    | .struct => some ("struct", NodeKind.structName, NodeKind.structBody)
    | .variant => some ("variant", .variantName, .variantBody)
    | .enum => some ("enum", .enumName, .enumBody)
    | _ => none
  let _ ← node.child? bodyKind
  let name ← node.child? nameKind
  return s!"{word} {name.text}"

/-- Enters a name into a scope that does not have it yet. -/
def enter (scope : TypeScopeId) (name : String) (source : TypeSource) : TypeM Unit := do
  if ((← get).lookup? scope name).isSome then throw (.repeated (.type name))
  modify fun table => table.setEntry scope name (.pending source)

/-- Enters the names that one node declares. -/
def enterDeclared (scope : TypeScopeId) (node : Node) : TypeM Unit := do
  match node.kind with
  | .typeAlias =>
    let target ← require node .typeAliasTarget .aliasTargetMissing
    let aliased ← require node .typeAliasAlias .aliasMissing
    let specifiers ← require target .typeSpecifierList .aliasTargetTypeMissing
    let name ← aliasName aliased
    enter scope name ⟨specifiers, target.child? .typeDeclarator⟩
  | .typeDef =>
    let specifiers ← require node .typeSpecifierList .typedefTypeMissing
    let declarators ← require node .typeDeclaratorList .typedefNamesMissing
    (declarators.childrenOf .typeDeclarator).forM fun declarator => do
      let name ← declaratorName declarator
      enter scope name ⟨specifiers, some declarator⟩
  | .typeDeclaration =>
    let specifiers ← require node .typeSpecifierList .declarationTypeMissing
    match specifiers.children.head?.bind compoundName? with
    | some name => enter scope name ⟨specifiers, none⟩
    | none => pure ()
  | _ => pure ()

/-- Enters the names that the nodes of a block or a body declare, before anything refers to them. -/
def enterAll (scope : TypeScopeId) (nodes : List Node) : TypeM Unit :=
  nodes.forM (enterDeclared scope)

/-- Makes known a compound type that is declared where it is used, unless its name is taken. -/
def enterBuilt (scope : TypeScopeId) (name : String) (t : FieldType) : TypeM Unit :=
  modify fun table =>
    if (table.lookup? scope name).isSome then table else table.setEntry scope name (.built t)

end TypeM

end CommonTrace
