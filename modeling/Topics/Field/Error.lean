import Topics.Hex
import Topics.Text.Literal

/-! Why a text or value does not fit the type of its field. -/

namespace Topics

/-- A reason for refusing a field's text or value. -/
inductive FieldError where
  /-- An identifier of the wrong number of bytes. -/
  | wrongLength (expected got : Nat)
  /-- An identifier's text that does not start with the hexadecimal marker. -/
  | unmarked
  /-- An identifier's text whose digits cannot be read. -/
  | invalidHex (fault : Hex.Fault)
  /-- A numeral without any character. -/
  | emptyInteger
  /-- A numeral with a character that is no decimal digit. -/
  | invalidInteger (text : String)
  /-- A numeral of several digits that starts with zero. -/
  | leadingZero (text : String)
  /-- A number beyond the width of its field. -/
  | overflow (text : String) (bits : Nat)
  /-- A number below zero. -/
  | negative (value : Int)
  /-- A word that its set does not list. -/
  | unknownLiteral (vocabulary text : String)
  /-- A value of another shape than the field's type. -/
  | typeMismatch (expected got : String)
  deriving DecidableEq, Repr

/-- The text of a fault in hexadecimal digits. -/
def Hex.Fault.message : Hex.Fault → String
  | .length expected got => s!"expected {expected} hex characters, got {got}"
  | .character byte position =>
    s!"Invalid character {Text.quotedByte byte} at position {position}"

/-- The text that reports a refused field. -/
def FieldError.message : FieldError → String
  | .wrongLength expected got => s!"expected {expected} bytes, got {got}"
  | .unmarked => "missing '0x' prefix"
  | .invalidHex fault => s!"invalid hex: {fault.message}"
  | .emptyInteger => "empty integer segment"
  | .invalidInteger text => s!"invalid integer '{text}'"
  | .leadingZero text => s!"leading zero in '{text}'"
  | .overflow text bits => s!"{text} does not fit in {bits} bits"
  | .negative value => s!"negative value {value} for unsigned field"
  | .unknownLiteral vocabulary text => s!"unknown {vocabulary} literal '{text}'"
  | .typeMismatch expected got => s!"type mismatch: expected {expected}, got {got}"

end Topics
