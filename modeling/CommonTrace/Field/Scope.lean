import CommonTrace.Field.Basic

/-!
# Scopes of decoded fields

The fields of a structure form a scope.  The scopes of one decoding pass are kept side by side in an
`Arena` and numbered in the order in which they were opened; a scope knows the one it lies in.  Each
decoded block has a scope of its own, registered under the name of the block before the first field
is decoded, so that its fields can refer to each other by absolute path.

An event is decoded in an arena of its own, and a path that leads nowhere there is looked up in the
arena of its packet: a `ScopeChain` is an arena with the arenas around it.

## Looking up a path

An absolute path starts in the innermost arena that has the block, and in no other.  A relative path
is searched for in the scopes around the place of use, nearest first, then in the blocks, latest
first.  The first scope that has a field with the head of the path decides: if the rest of the path
leads nowhere from there, the path leads nowhere.
-/

namespace CommonTrace

/-- The fields of one structure or block, in the order in which they were decoded.  A structure
goes by its name and lies in another scope; a block goes by its path and lies in none. -/
structure Scope where
  name : String
  parent : Option ScopeId
  fields : Array Field

/-- Scopes by number, and the scopes of the blocks in the order in which they were decoded. -/
structure Arena where
  scopes : Array Scope
  blocks : List (StaticScope × ScopeId)

namespace Arena

def empty : Arena where
  scopes := #[]
  blocks := []

/-- Adds a scope for a block, which takes the place of an earlier one of the same block. -/
def openBlock (a : Arena) (block : StaticScope) : ScopeId × Arena :=
  let id := a.scopes.size
  (id,
    { scopes := a.scopes.push ⟨block.path, none, #[]⟩
      blocks := a.blocks.filter (·.1 ≠ block) ++ [(block, id)] })

def openChild (a : Arena) (parent : ScopeId) (name : String) : ScopeId × Arena :=
  (a.scopes.size, { a with scopes := a.scopes.push ⟨name, some parent, #[]⟩ })

def insert (a : Arena) (scope : ScopeId) (field : Field) : Arena :=
  { a with scopes := a.scopes.modify scope fun s => { s with fields := s.fields.push field } }

def name? (a : Arena) (scope : ScopeId) : Option String :=
  a.scopes[scope]?.map Scope.name

def parent? (a : Arena) (scope : ScopeId) : Option ScopeId :=
  a.scopes[scope]?.bind Scope.parent

def fields (a : Arena) (scope : ScopeId) : List Field :=
  match a.scopes[scope]? with
  | some s => s.fields.toList
  | none => []

def field? (a : Arena) (scope : ScopeId) (name : String) : Option Field :=
  a.scopes[scope]?.bind fun s => s.fields.find? (·.name == name)

def block? (a : Arena) (block : StaticScope) : Option ScopeId :=
  a.blocks.lookup block

/-- The member of a field that a path descends into: a field of a structure or, in a variant, the
selected alternative itself or a field of it. -/
def member? (a : Arena) (f : Field) (name : String) : Option Field :=
  match f.value with
  | .struct scope => a.field? scope name
  | .variant _ inner =>
    if inner.name = name then some inner
    else
      match inner.value with
      | .struct scope => a.field? scope name
      | _ => none
  | _ => none

def descend? (a : Arena) (f : Field) (names : List String) : Option Field :=
  names.foldlM a.member? f

/-- The given scope and, as far as `depth` reaches, the scopes around it, nearest first. -/
def outwards (a : Arena) : Nat → ScopeId → List ScopeId
  | 0, _ => []
  | depth + 1, scope =>
    scope :: match a.parent? scope with
      | some parent => a.outwards depth parent
      | none => []

/-- The given scope and all scopes around it, nearest first.  No scope lies in itself, so there are
no more of them than scopes. -/
def enclosing (a : Arena) (scope : ScopeId) : List ScopeId :=
  a.outwards a.scopes.size scope

/-! ## The last integer of a name -/

/-- The last integer or enumeration of the given name in a field, where `inScope` answers the
question for a scope.  Elements of arrays and sequences are not searched. -/
def lastIntegerIn? (name : String) (inScope : ScopeId → Option Field) (f : Field) : Option Field :=
  match f with
  | ⟨own, type, .integer n⟩ => if own = name then some ⟨own, type, .integer n⟩ else none
  | ⟨own, type, .enum n label⟩ => if own = name then some ⟨own, type, .enum n label⟩ else none
  | ⟨_, _, .struct scope⟩ => inScope scope
  | ⟨_, _, .variant _ inner⟩ => lastIntegerIn? name inScope inner
  | _ => none

/-- The last integer of the given name in a scope and, as far as `depth` reaches, in the scopes of
its structures. -/
def lastIntegerWithin? (a : Arena) (name : String) : Nat → ScopeId → Option Field
  | 0, _ => none
  | depth + 1, scope =>
    (a.fields scope).foldl
      (fun found f => (lastIntegerIn? name (a.lastIntegerWithin? name depth) f).or found) none

/-- The last integer or enumeration of the given name in a scope, in its structures and in the
selected alternatives of its variants.  An extended event header repeats `id` and `timestamp` in a
variant, and the last one counts. -/
def lastInteger? (a : Arena) (scope : ScopeId) (name : String) : Option Field :=
  a.lastIntegerWithin? name (a.scopes.size + 1) scope

end Arena

/-- The arena that is being decoded into, and the arenas in which a path is looked up next. -/
structure ScopeChain where
  arena : Arena
  outer : List Arena

namespace ScopeChain

def empty : ScopeChain where
  arena := .empty
  outer := []

/-- A new innermost arena around which the given chain lies. -/
def within (chain : ScopeChain) : ScopeChain where
  arena := .empty
  outer := chain.arena :: chain.outer

def arenas (chain : ScopeChain) : List Arena :=
  chain.arena :: chain.outer

/-- The innermost arena that has the block, and the scope of the block there. -/
def block? (chain : ScopeChain) (block : StaticScope) : Option (Arena × ScopeId) :=
  chain.arenas.findSome? fun a => (a.block? block).map (a, ·)

def resolveInBlock? (chain : ScopeChain) (block : StaticScope) (path : FieldPath) :
    Option Field := do
  let (a, scope) ← chain.block? block
  let found ← a.field? scope path.head
  a.descend? found path.tail

/-- The field that a path leads to from the latest block that has its head. -/
def searchBlocks? (chain : ScopeChain) (path : FieldPath) : Option Field := do
  let (a, found) ← chain.arenas.findSome? fun a =>
    a.blocks.reverse.findSome? fun (_, scope) => (a.field? scope path.head).map (a, ·)
  a.descend? found path.tail

/-- The field that a path leads to from a scope of the innermost arena. -/
def resolve? (chain : ScopeChain) (start : ScopeId) (path : FieldPath) : Option Field :=
  match path.anchor with
  | .absolute block => chain.resolveInBlock? block path
  | .relative up =>
    let visible := (chain.arena.enclosing start).drop up
    match visible.findSome? fun scope => chain.arena.field? scope path.head with
    | some found => chain.arena.descend? found path.tail
    | none => chain.searchBlocks? path

/-- The field that the text of a path leads to.  A relative path is searched for in the blocks
alone. -/
def lookup? (chain : ScopeChain) (text : String) : Option Field := do
  let path ← FieldPath.ofString? text
  match path.anchor with
  | .absolute block => chain.resolveInBlock? block path
  | .relative _ => chain.searchBlocks? path

end ScopeChain

end CommonTrace
