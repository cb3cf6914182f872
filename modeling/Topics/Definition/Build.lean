import Topics.Definition.Basic
import Topics.Field.Codec

/-! Values are written into a format, as a topic or as a pattern that leaves fields open. -/

namespace Topics

/-- What a format is filled in for. -/
inductive BuildMode where
  /-- A topic: every field has its value. -/
  | topic
  /-- A pattern: a field without a value may hold anything. -/
  | pattern
  deriving DecidableEq, Repr

namespace Definition

/-- The token for one segment of the format. -/
def writeSegment (definition : Definition) (values : FieldMap) (mode : BuildMode) :
    Segment → Except TopicError String
  | .literal text => .ok text
  | .placeholder name =>
    match definition.field? name with
    | none => .error (.unknownField definition.id name)
    | some spec =>
      -- A value has to fit its field in both modes; only its absence is read differently.
      match values.get? name, mode with
      | some value, _ =>
        match spec.type.encode value with
        | .ok token => .ok token
        | .error cause => .error (.invalidField name cause)
      | none, .pattern => .ok singleWildcard
      | none, .topic => .error (.missingField name)

/-- The tokens for a run of segments, up to the first that cannot be written. -/
def writeSegments (definition : Definition) (values : FieldMap) (mode : BuildMode) :
    List Segment → Except TopicError (List String)
  | [] => .ok []
  | segment :: rest =>
    -- The leftmost fault is the one that is reported.
    match definition.writeSegment values mode segment with
    | .error error => .error error
    | .ok token =>
      match definition.writeSegments values mode rest with
      | .error error => .error error
      | .ok more => .ok (token :: more)

/-- The first name that has a value but no declared field. -/
def firstUndeclared? (definition : Definition) (names : List String) : Option String :=
  names.find? fun name => (definition.field? name).isNone

/-- The topic or pattern for the given values; names without a field are refused first. -/
def build (definition : Definition) (values : FieldMap) (mode : BuildMode) :
    Except TopicError String :=
  -- Names come before the format, in the order in which they were put.
  match definition.firstUndeclared? values.keys with
  | some name => .error (.unknownField definition.id name)
  | none => (definition.writeSegments values mode definition.segments).map joinTokens

end Definition

end Topics
