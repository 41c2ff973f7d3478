import CommonTrace.Numeric.Binary64

/-!
# JSON values

The values that events, clocks and environment entries are exchanged as.  Integers are kept apart
from floating point numbers, because they may have sixty-four significant bits.  The members of an
object stand in the order in which they were added, each name once.
-/

namespace CommonTrace

/-- A JSON value. -/
inductive Json where
  | null
  | bool (b : Bool)
  | integer (n : Int)
  | float (x : Binary64)
  | string (s : String)
  | array (elements : List Json)
  | object (members : List (String × Json))
deriving Inhabited, Repr

namespace Json

/-- Sets a member of an object, in place of an earlier one of that name. -/
def setMember (members : List (String × Json)) (name : String) (value : Json) :
    List (String × Json) :=
  match members with
  | [] => [(name, value)]
  | (other, old) :: rest =>
    if other = name then (name, value) :: rest else (other, old) :: setMember rest name value

/-- The object with the given members, of which the last one of a name counts. -/
def ofMembers (members : List (String × Json)) : Json :=
  .object (members.foldl (fun object (name, value) => setMember object name value) [])

def nat (n : Nat) : Json :=
  .integer n

def optional {α : Type} (encode : α → Json) : Option α → Json
  | some a => encode a
  | none => .null

/-- The value of an integer that satisfies a condition. -/
def integer? (condition : Int → Prop) [DecidablePred condition] : Json → Option Int
  | .integer n => if condition n then some n else none
  | _ => none

def string? : Json → Option String
  | .string s => some s
  | _ => none

def bool? : Json → Option Bool
  | .bool b => some b
  | _ => none

/-- A value that is absent where the JSON value is `null`. -/
def nullable? {α : Type} (decode : Json → Option α) : Json → Option (Option α)
  | .null => some none
  | value => (decode value).map some

/-- The name of a choice among words: a string, or an object whose only member has the name and no
value. -/
def word? : Json → Option String
  | .string s => some s
  | .object [(name, .null)] => some name
  | _ => none

end Json

end CommonTrace
