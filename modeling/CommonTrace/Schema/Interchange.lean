import CommonTrace.FieldType.Scalar
import CommonTrace.Schema.Clock
import CommonTrace.Text.Json

/-!
# Parts of a schema as JSON values

Clocks, environment entries, byte orders and encodings can be written as JSON values and read back.
A clock is an object, in which identifier and description may be missing and further members do not
matter, or the array of its members in their order.  An environment entry is a number or a string
without a mark of its own, and byte orders and encodings are words.
-/

namespace CommonTrace

def Json.unsigned? (value : Json) : Option Nat :=
  (value.integer? (FitsUnsigned 64)).map Int.toNat

def Json.signed? (value : Json) : Option Int :=
  value.integer? (FitsSigned 64)

def ByteOrder.word : ByteOrder → String
  | .big => "big_endian"
  | .little => "little_endian"

def ByteOrder.ofJson? (value : Json) : Option ByteOrder := do
  match ← value.word? with
  | "big_endian" => some .big
  | "little_endian" => some .little
  | _ => none

def Encoding.word : Encoding → String
  | .none => "none"
  | .utf8 => "utf8"
  | .ascii => "ascii"

def Encoding.ofJson? (value : Json) : Option Encoding := do
  match ← value.word? with
  | "none" => some .none
  | "utf8" => some .utf8
  | "ascii" => some .ascii
  | _ => Option.none

def EnvValue.toJson : EnvValue → Json
  | .integer n => .integer n
  | .string s => .string s

def EnvValue.ofJson? (value : Json) : Option EnvValue :=
  (value.signed?.map EnvValue.integer).or (value.string?.map EnvValue.string)

namespace Clock

def toJson (clock : Clock) : Json :=
  .object
    [("name", .string clock.name),
      ("uuid", .optional (fun uuid => .string uuid.toText) clock.uuid),
      ("description", .optional .string clock.description),
      ("frequency", .nat clock.frequency),
      ("offset_seconds", .integer clock.offsetSeconds),
      ("offset_cycles", .integer clock.offsetCycles),
      ("precision", .nat clock.precision),
      ("absolute", .bool clock.absolute)]

/-- Reads a clock from its members, given in their order. -/
def ofMembers? : List Json → Option Clock
  | [name, uuid, description, frequency, offsetSeconds, offsetCycles, precision, absolute] => do
    return {
      name := ← name.string?
      uuid := ← uuid.nullable? fun text => text.string?.bind Uuid.ofString?
      description := ← description.nullable? Json.string?
      frequency := ← frequency.unsigned?
      offsetSeconds := ← offsetSeconds.signed?
      offsetCycles := ← offsetCycles.signed?
      precision := ← precision.unsigned?
      absolute := ← absolute.bool? }
  | _ => none

def ofJson? : Json → Option Clock
  | .object members => do
    let required (name : String) := members.lookup name
    let optional (name : String) := (members.lookup name).getD .null
    ofMembers?
      [← required "name", optional "uuid", optional "description", ← required "frequency",
        ← required "offset_seconds", ← required "offset_cycles", ← required "precision",
        ← required "absolute"]
  | .array members => ofMembers? members
  | _ => none

end Clock

end CommonTrace
