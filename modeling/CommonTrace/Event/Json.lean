import CommonTrace.Event.Basic
import CommonTrace.Text.Calendar
import CommonTrace.Text.Json

/-!
# Events as JSON values

An event becomes an object with its name, id, stream and time, and one object for each of its blocks
with a member for each field.  A structure is an object as well; of an enumeration both number and
label are given, and of a variant the selected alternative under its name.  A number that is
infinite or no number has no JSON form, and `null` stands for it.
-/

namespace CommonTrace

namespace Value

def floatToJson (x : Binary64) : Json :=
  if x.isFinite then .float x else .null

mutual

/-- The JSON form of a value, where `inScope` gives that of a structure. -/
def toJson (inScope : ScopeId → Json) (value : Value) : Json :=
  match value with
  | .integer n => .integer n.value
  | .float x => floatToJson x
  | .text s => .string s
  | .enum n label => .object [("value", .integer n.value), ("label", .optional .string label)]
  | .struct scope => inScope scope
  | .variant selection inner => .object [(selection, fieldToJson inScope inner)]
  | .array elements => .array (elementsToJson inScope elements)
  | .sequence elements => .array (elementsToJson inScope elements)
termination_by structural value

def fieldToJson (inScope : ScopeId → Json) (field : Field) : Json :=
  match field with
  | ⟨_, _, value⟩ => toJson inScope value
termination_by structural field

def elementsToJson (inScope : ScopeId → Json) (elements : List Field) : List Json :=
  match elements with
  | [] => []
  | field :: rest => fieldToJson inScope field :: elementsToJson inScope rest
termination_by structural elements

end

end Value

namespace Arena

/-- The object with the fields of a scope, in which structures are followed `depth` deep. -/
def scopeToJsonWithin (a : Arena) : Nat → ScopeId → Json
  | 0, _ => .null
  | depth + 1, scope =>
    .ofMembers
      ((a.fields scope).map fun f => (f.name, f.value.toJson (a.scopeToJsonWithin depth)))

/-- The object with the fields of a scope, in which structures are nested no deeper than there are
scopes. -/
def scopeToJson (a : Arena) (scope : ScopeId) : Json :=
  a.scopeToJsonWithin (a.scopes.size + 1) scope

end Arena

namespace Event

def blockMember (event : Event) (name : String) (block : StaticScope) : List (String × Json) :=
  match event.scopes.arena.block? block with
  | some scope => [(name, event.scopes.arena.scopeToJson scope)]
  | none => []

def cpuMember (event : Event) : List (String × Json) :=
  match event.cpuId with
  | some cpu => [("cpu_id", .nat cpu)]
  | none => []

def timeMember (event : Event) : List (String × Json) :=
  if event.absolute then [("time", .string (Calendar.rfc3339 event.timestamp))] else []

def toJson (event : Event) : Json :=
  .object <|
    [("name", .string event.schema.name), ("id", .optional .nat event.schema.id),
        ("stream_id", .nat event.streamId), ("timestamp", .nat event.timestamp),
        ("cycles", .nat event.cycles)]
      ++ event.cpuMember ++ event.timeMember
      ++ event.blockMember "header" .streamEventHeader
      ++ event.blockMember "stream_context" .streamEventContext
      ++ event.blockMember "context" .eventContext
      ++ event.blockMember "fields" .eventFields

end Event

end CommonTrace
