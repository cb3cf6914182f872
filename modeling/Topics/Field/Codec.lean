import Topics.Field.Type
import Topics.Field.Value

/-! Each field type has one way to write its values as a token and to read them back. -/

namespace Topics

/-- Reads a word of a vocabulary; upper and lower case differ. -/
def Vocabulary.read (vocabulary : Vocabulary) (text : String) : Except FieldError Label :=
  match vocabulary.label? text with
  | some label => .ok label
  | none => .error (.unknownLiteral vocabulary.name text)

namespace FieldType

/-- The token that stands for a value of this type. -/
def encode (type : FieldType) (value : Value) : Except FieldError String :=
  -- Identifier types differ in name only, and so do integer types of one width.
  match type, value with
  | identifier _, .bytes raw =>
    match Bytes32.ofBytes raw with
    | .ok held => .ok held.text
    | .error error => .error error
  | integer kind, .uint n =>
    if n.toNat < Nat.pow 2 kind.bits then .ok (Numeral.write n.toNat)
    else .error (.overflow (Numeral.write n.toNat) kind.bits)
  | label vocabulary, .label held =>
    if held.vocabulary = vocabulary then .ok held.word
    else .error (.typeMismatch vocabulary.name held.vocabulary.name)
  | type, value => .error (.typeMismatch type.name value.kind)

/-- The value that a token stands for in this type. -/
def decode (type : FieldType) (token : String) : Except FieldError Value :=
  -- The reader of each kind of type gives its own reasons for refusing a token.
  match type with
  | identifier _ =>
    match Bytes32.ofText token with
    | .ok held => .ok (.ofIdentifier held)
    | .error error => .error error
  | integer kind =>
    match Numeral.read kind.bits token with
    | .ok n => .ok (.uint (UInt64.ofNat n))
    | .error error => .error error
  | label vocabulary =>
    match vocabulary.read token with
    | .ok held => .ok (.label held)
    | .error error => .error error

end FieldType

end Topics
