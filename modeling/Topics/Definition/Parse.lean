import Topics.Definition.Basic
import Topics.Field.Codec

/-! Topics are read back into values by the format of their family. -/

namespace Topics.Definition

/-- Reads tokens beside the segments of the format, from a position on, adding to the values. -/
def readTokens (definition : Definition) :
    (position : Nat) → List (Segment × String) → FieldMap → Except TopicError FieldMap
  -- Every pair has been read, and the values stand in the order of the format.
  | _, [], values => .ok values
  | position, (.literal text, token) :: rest, values =>
    if text = token then definition.readTokens (position + 1) rest values
    else .error (.literalMismatch position text token)
  | position, (.placeholder name, token) :: rest, values =>
    match definition.field? name with
    | none => .error (.unknownField definition.id name)
    | some spec =>
      match spec.type.decode token with
      | .error cause => .error (.invalidField name cause)
      | .ok value => definition.readTokens (position + 1) rest (values.insert name value)

/-- The values in a topic of the family; the number of tokens is checked before any of them. -/
def parse (definition : Definition) (topic : String) : Except TopicError FieldMap :=
  -- With equal lengths no segment and no token is left out of the pairs.
  let found := tokens topic
  if definition.segmentCount ≠ found.length then
    .error (.segmentCount definition.segmentCount found.length)
  else definition.readTokens 0 (definition.segments.zip found) .empty

end Topics.Definition
