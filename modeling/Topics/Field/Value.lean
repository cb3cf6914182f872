import Topics.Bytes32
import Topics.Numeral
import Topics.Vocabulary

/-! The values that fields are set to. -/

namespace Topics

/-- A value for a field, whether or not it fits the field's type. -/
inductive Value where
  /-- Bytes of any number; only 32 of them make an identifier. -/
  | bytes (raw : List UInt8)
  /-- A number of at most 64 bits. -/
  | uint (n : UInt64)
  /-- A word of some vocabulary. -/
  | label (label : Label)
  deriving DecidableEq, Repr

namespace Value

/-- The name of a value's shape in messages. -/
def kind : Value → String
  | bytes _ => "bytes"
  | uint _ => "uint"
  | label l => l.vocabulary.name

/-- The text of a value, whether or not it fits a field. -/
def text : Value → String
  | bytes raw => Bytes32.write raw
  | uint n => Numeral.write n.toNat
  | label l => l.word

/-- The number that a value holds. -/
def number? : Value → Option UInt64
  | uint n => some n
  | _ => none

/-- The identifier that a value holds. -/
def identifier? : Value → Option Bytes32
  | bytes raw => (Bytes32.ofBytes raw).toOption
  | _ => none

/-- The value of an identifier. -/
def ofIdentifier (identifier : Bytes32) : Value := bytes identifier.bytes

end Value

end Topics
