import Topics.Field.Error

/-! Identifiers are 32 bytes, written as `0x` and 64 lower-case hexadecimal digits. -/

namespace Topics

/-- A value of exactly 32 bytes. -/
structure Bytes32 where
  /-- The bytes, first one first. -/
  bytes : List UInt8
  /-- There are 32 of them. -/
  size : bytes.length = 32
  deriving DecidableEq, Repr

namespace Bytes32

/-- Takes bytes of any number and refuses all but 32. -/
def ofBytes (bytes : List UInt8) : Except FieldError Bytes32 :=
  if size : bytes.length = 32 then .ok ⟨bytes, size⟩
  else .error (.wrongLength 32 bytes.length)

/-- The same byte 32 times. -/
def replicate (byte : UInt8) : Bytes32 := ⟨List.replicate 32 byte, by simp⟩

/-- The value of 32 zero bytes. -/
def zero : Bytes32 := replicate 0

/-- The marker and the digits of any number of bytes. -/
def write (bytes : List UInt8) : String := String.ofList ('0' :: 'x' :: Hex.encode bytes)

/-- The text of an identifier. -/
def text (value : Bytes32) : String := write value.bytes

/-- Reads an identifier's text; digits may be of either case. -/
def ofText (text : String) : Except FieldError Bytes32 :=
  -- The marker is looked at before anything behind it.
  match text.toList with
  | '0' :: 'x' :: digits =>
    match Hex.read 32 digits with
    | .error fault => .error (.invalidHex fault)
    | .ok bytes => ofBytes bytes
  | _ => .error .unmarked

/-- Identifiers are ordered by their first differing byte. -/
def compare (a b : Bytes32) : Ordering := List.compareLex Ord.compare a.bytes b.bytes

/-- The bytes of an identifier make up the identifier. -/
theorem ofBytes_bytes (value : Bytes32) : ofBytes value.bytes = .ok value := by
  -- The type already says that there are 32.
  simp [ofBytes, value.size]

/-- The text of an identifier is read back as the identifier. -/
theorem ofText_text (value : Bytes32) : ofText value.text = .ok value := by
  -- Behind the marker stand the digits of 32 bytes.
  simp only [ofText, text, write, String.toList_ofList, Hex.read_encode value.size]
  exact ofBytes_bytes value

end Bytes32

end Topics
