import Topics.Field.Error
import Topics.Json.Fault

/-! Why a topic, pattern, subject or payload is refused. -/

namespace Topics

/-- Why a text is no pattern. -/
inductive PatternFault where
  /-- Two separators stand side by side, or one stands at an end. -/
  | emptyToken
  /-- A token follows the tail wildcard. -/
  | tailNotLast
  deriving DecidableEq, Repr

/-- The text of a pattern's fault. -/
def PatternFault.message : PatternFault → String
  | emptyToken => "empty token"
  | tailNotLast => "'>' must be the last token"

/-- A reason for refusing a topic, pattern, subject or payload. -/
inductive TopicError where
  /-- No base is listed under the entity key. -/
  | unknownEntity (entity : String)
  /-- The entity's base has no variant under the key. -/
  | unknownVariant (entity variant : String)
  /-- Nothing is known under the name. -/
  | unknownSubject (id : String)
  /-- A field without a value where every field needs one. -/
  | missingField (field : String)
  /-- A value or placeholder whose field is not declared. -/
  | unknownField (id field : String)
  /-- A value that does not fit its field. -/
  | invalidField (field : String) (cause : FieldError)
  /-- A topic of another number of tokens than its format. -/
  | segmentCount (expected got : Nat)
  /-- A token that differs from the literal in its place. -/
  | literalMismatch (position : Nat) (expected got : String)
  /-- A text that is no pattern. -/
  | invalidPattern (pattern : String) (fault : PatternFault)
  /-- A parameter whose field is not declared. -/
  | unknownParam (id field : String)
  /-- Parameters that are no object, with their JSON text. -/
  | paramsNotObject (written : String)
  /-- A JSON text that cannot be read. -/
  | unreadable (fault : Json.Fault)
  deriving DecidableEq, Repr

namespace TopicError

/-- Whether the error says that a topic has another shape than the format. -/
def isMismatch : TopicError → Bool
  | segmentCount _ _ => true
  | literalMismatch _ _ _ => true
  | _ => false

/-- The text that reports a refusal. -/
def message : TopicError → String
  | unknownEntity entity => s!"Unknown entity '{entity}'"
  | unknownVariant entity variant => s!"Unknown variant '{variant}' for entity '{entity}'"
  | unknownSubject id => s!"Unknown subject '{id}'"
  | missingField field => s!"Missing required field: {field}"
  | unknownField id field => s!"Subject '{id}' has no field '{field}'"
  | invalidField field cause => s!"Invalid field '{field}': {cause.message}"
  | segmentCount expected got => s!"Segment count mismatch: expected {expected}, got {got}"
  | literalMismatch position expected got =>
    s!"Literal mismatch at segment {position}: expected '{expected}', got '{got}'"
  | invalidPattern pattern fault => s!"Invalid pattern '{pattern}': {fault.message}"
  | unknownParam id field => s!"Invalid params: '{id}' has no field '{field}'"
  | paramsNotObject written => s!"Invalid params: params must be an object, got {written}"
  | unreadable fault => s!"Serialization error: {fault.message}"

/-- The texts of the causes that lie behind an error, outermost first. -/
def causes : TopicError → List String
  | invalidField _ cause => [cause.message]
  | unreadable fault => [fault.message]
  | _ => []

end TopicError

end Topics
