import Topics.Definition.Build
import Topics.Field.Param
import Topics.Json.Reader
import Topics.Json.Writer
import Topics.Registry

/-! A payload asks in JSON for a family of topics, and may fix some of its fields. -/

namespace Topics

/-- What a subscriber asks for. -/
structure Payload where
  /-- The id of the definition. -/
  subject : String
  /-- The fixed fields, as an object, or null for none. -/
  params : Json
  deriving Repr

namespace Payload

/-- The JSON form of a field map. -/
def ofValues (fields : FieldMap) : Json :=
  .object (fields.entries.map fun (name, value) => (name, value.toJson))

/-- The payload that fixes the given fields; a name without a declared field is refused. -/
def ofFields (definition : Definition) (fields : FieldMap) : Except TopicError Payload :=
  -- Values are not looked at here, as the payload is typed again when it is read.
  match definition.firstUndeclared? fields.keys with
  | some name => .error (.unknownField definition.id name)
  | none => .ok ⟨definition.id, ofValues fields⟩

/-- The fields of a payload's text; without parameters nothing is fixed. -/
def slots : List (Json.Reader.Slot Payload) :=
  [⟨"subject", true, fun _ payload => do
      return { payload with subject := ← Json.Reader.wantedString }⟩,
    ⟨"params", false, fun depth payload => do
      return { payload with params := ← Json.Reader.value .exact depth }⟩]

/-- Reads a payload from JSON text. -/
def ofText (text : String) : Except TopicError Payload :=
  match Json.Reader.document (Json.Reader.record slots ⟨"", .null⟩ Json.Reader.deepest) text with
  | .ok payload => .ok payload
  | .error fault => .error (.unreadable fault)

/-- The JSON form of a payload. -/
def toJson (payload : Payload) : Json :=
  .object [("subject", .string payload.subject), ("params", payload.params)]

/-- The entity key in the subject: all of it that stands before the first underscore. -/
def entityKey (payload : Payload) : String :=
  String.ofList (payload.subject.toList.takeWhile (· ≠ '_'))

/-- The definition that the payload asks for. -/
def definition (payload : Payload) (registry : Registry) : Except TopicError Definition :=
  registry.definition payload.subject

/-- Adds the values of parameters in order; a null parameter leaves its field open. -/
def readParams (definition : Definition) :
    List (String × Json) → FieldMap → Except TopicError FieldMap
  | [], fields => .ok fields
  | (name, param) :: rest, fields =>
    -- Even a null parameter has to name a declared field.
    match definition.field? name with
    | none => .error (.unknownParam definition.id name)
    | some spec =>
      if param.isNull then readParams definition rest fields
      else match spec.type.ofJson param with
        | .error cause => .error (.invalidField name cause)
        | .ok value => readParams definition rest (fields.insert name value)

/-- The fields that the payload fixes in a definition. -/
def fields (payload : Payload) (definition : Definition) : Except TopicError FieldMap :=
  -- Parameters that are absent or null fix nothing.
  match payload.params with
  | .null => .ok .empty
  | .object params => readParams definition params .empty
  | other => .error (.paramsNotObject other.compact)

/-- The pattern that the payload asks for: the family's wildcard where no field is fixed. -/
def pattern (payload : Payload) (registry : Registry) : Except TopicError String := do
  let definition ← payload.definition registry
  let fields ← payload.fields definition
  -- A family's wildcard is shorter than its pattern with every field open, and selects as much.
  if fields.isEmpty then return definition.wildcard
  else definition.build fields .pattern

end Payload

end Topics
