import Topics.Field.Codec
import Topics.Json.Basic

/-! Field values as JSON parameters: numbers stay numbers, and all other values are strings. -/

namespace Topics

namespace Value

/-- The JSON form of a value. -/
def toJson : Value → Json
  | uint n => .number (.natural n)
  | value => .string value.text

end Value

namespace FieldType

/-- The value that a parameter gives, before its width is looked at. -/
def readParam (type : FieldType) (param : Json) : Except FieldError Value :=
  -- A number is taken as it is; any string is read like a token.
  match type, param with
  | integer _, .number (.natural n) => .ok (.uint n)
  | integer _, .number (.negative n) => .error (.negative n)
  | integer _, .number (.real value) =>
    .error (.invalidInteger (Json.Number.write (.real value)))
  | type, .string text => type.decode text
  | type, param => .error (.typeMismatch type.name param.kind)

/-- The value that a parameter gives, if this type can write it. -/
def ofJson (type : FieldType) (param : Json) : Except FieldError Value :=
  match type.readParam param with
  | .error error => .error error
  | .ok value =>
    -- A number may be wider than its field, which a token never is.
    match type.encode value with
    | .error error => .error error
    | .ok _ => .ok value

end FieldType

end Topics
