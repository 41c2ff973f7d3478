import CommonTrace.Name.StaticScope

/-!
# Paths to fields

The length of a sequence and the tag of a variant are fields decoded earlier, and metadata refers to
them by path.  A path is either absolute, and then starts in a block, or relative, and then is
looked up from the place where it is used after climbing one level for each leading `../`.  What
follows are one or more names joined by dots: the head is searched for, the rest is descended into.
-/

namespace CommonTrace

/-- Where the search for a path starts: at the place of use, `up` levels higher, or in a block. -/
inductive Anchor where
  | relative (up : Nat)
  | absolute (scope : StaticScope)
deriving DecidableEq, Repr

/-- A path to a field: the name that is searched for, and the names of the members to descend into
from there. -/
structure FieldPath where
  anchor : Anchor
  head : String
  tail : List String
deriving DecidableEq, Repr

namespace FieldPath

/-- The names of the path, the head first. -/
def segments (path : FieldPath) : List String :=
  path.head :: path.tail

/-- The path that a text of names joined by dots gives to an anchor.  No name may be empty. -/
def ofNames? (anchor : Anchor) (names : List Char) : Option FieldPath :=
  let segments := names.splitOn '.'
  if segments.any (·.isEmpty) then none
  else
    match segments.map String.ofList with
    | [] => none
    | head :: tail => some { anchor, head, tail }

/-- The number of leading `../` of a text, and the text behind them. -/
def climb : List Char → Nat × List Char
  | '.' :: '.' :: '/' :: rest => let (up, names) := climb rest; (up + 1, names)
  | names => (0, names)

def ofString? (text : String) : Option FieldPath :=
  match StaticScope.splitAbsolute? text.toList with
  | some (scope, names) => ofNames? (.absolute scope) names
  | none => let (up, names) := climb text.toList; ofNames? (.relative up) names

/-- The text that stands before the names of a path. -/
def anchorText : Anchor → String
  | .relative up => String.join (List.replicate up "../")
  | .absolute scope => scope.path ++ "."

def toText (path : FieldPath) : String :=
  anchorText path.anchor ++ ".".intercalate path.segments

end FieldPath

end CommonTrace
