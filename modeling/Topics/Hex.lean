/-! Bytes are written as pairs of hexadecimal digits, and digits of either case are read. -/

namespace Topics.Hex

/-- Why a run of characters is not the hexadecimal writing of the wanted number of bytes. -/
inductive Fault where
  /-- The run takes `got` bytes of text, not the `expected` number. -/
  | length (expected got : Nat)
  /-- The text byte at `position` is no hexadecimal digit. -/
  | character (byte : UInt8) (position : Nat)
  deriving DecidableEq, Repr

/-- The lower-case digit of a number below sixteen. -/
def digit (n : Nat) : Char :=
  -- Letters start 87 places above their value and decimal digits 48.
  if n < 10 then Char.ofNat (48 + n) else Char.ofNat (87 + n)

/-- The number that a digit of either case stands for. -/
def digitValue? (c : Char) : Option Nat :=
  if '0' ≤ c ∧ c ≤ '9' then some (c.toNat - 48)
  else if 'a' ≤ c ∧ c ≤ 'f' then some (c.toNat - 87)
  else if 'A' ≤ c ∧ c ≤ 'F' then some (c.toNat - 55)
  else none

/-- Whether a character is a hexadecimal digit of either case. -/
def isDigit (c : Char) : Bool := (digitValue? c).isSome

/-- Writes each byte as two lower-case digits, the high one first. -/
def encode : List UInt8 → List Char
  | [] => []
  | byte :: rest => digit (byte.toNat / 16) :: digit (byte.toNat % 16) :: encode rest

/-- Reads pairs of digits of either case as bytes. -/
def decode? : List Char → Option (List UInt8)
  | [] => some []
  -- A last digit without its partner is no byte.
  | [_] => none
  | high :: low :: rest => do
    let h ← digitValue? high
    let l ← digitValue? low
    let bytes ← decode? rest
    return UInt8.ofNat (16 * h + l) :: bytes

/-- The first character that is no digit, with its position. -/
def firstForeign? : Nat → List Char → Option (Char × Nat)
  | _, [] => none
  | position, c :: rest =>
    -- Digits take one byte of text each, so positions count bytes up to the first other character.
    if isDigit c then firstForeign? (position + 1) rest else some (c, position)

/-- The number of bytes that a run of characters takes as text. -/
def textLength (cs : List Char) : Nat := cs.foldr (fun c length => c.utf8Size + length) 0

/-- The first byte that a character takes as text. -/
def leadByte (c : Char) : UInt8 := (String.utf8EncodeChar c).headD 0

/-- Reads exactly `size` bytes; the length is checked first, then the digits from the left. -/
def read (size : Nat) (digits : List Char) : Except Fault (List UInt8) :=
  if textLength digits ≠ 2 * size then .error (.length (2 * size) (textLength digits))
  else match firstForeign? 0 digits with
    | some (c, position) => .error (.character (leadByte c) position)
    -- An even number of digits always pairs up into bytes.
    | none => .ok ((decode? digits).getD [])

/-- A written digit reads back. -/
theorem digitValue?_digit : ∀ {n : Nat}, n < 16 → digitValue? (digit n) = some n := by
  -- There are sixteen digits to look at.
  decide

/-- A written digit takes one byte of text. -/
theorem utf8Size_digit : ∀ {n : Nat}, n < 16 → (digit n).utf8Size = 1 := by
  -- There are sixteen digits to look at.
  decide

/-- Both halves of a byte are below sixteen. -/
theorem halves_lt (byte : UInt8) : byte.toNat / 16 < 16 ∧ byte.toNat % 16 < 16 := by
  have small := byte.toNat_lt
  omega

/-- Each byte takes two digits. -/
theorem textLength_encode (bytes : List UInt8) : textLength (encode bytes) = 2 * bytes.length := by
  induction bytes with
  | nil => rfl
  | cons byte rest ih =>
    obtain ⟨high, low⟩ := halves_lt byte
    simp only [textLength] at ih
    simp only [encode, textLength, List.foldr_cons, utf8Size_digit high,
      utf8Size_digit low, ih, List.length_cons]
    omega

/-- Written bytes have nothing but digits. -/
theorem firstForeign?_encode (bytes : List UInt8) (position : Nat) :
    firstForeign? position (encode bytes) = none := by
  induction bytes generalizing position with
  | nil => rfl
  | cons byte rest ih =>
    obtain ⟨high, low⟩ := halves_lt byte
    simp [encode, firstForeign?, isDigit, digitValue?_digit high, digitValue?_digit low, ih]

/-- Written bytes pair up into themselves. -/
theorem decode?_encode (bytes : List UInt8) : decode? (encode bytes) = some bytes := by
  induction bytes with
  | nil => rfl
  | cons byte rest ih =>
    obtain ⟨high, low⟩ := halves_lt byte
    -- Sixteen times the high half and the low half are the byte.
    have whole : UInt8.ofNat (16 * (byte.toNat / 16) + byte.toNat % 16) = byte := by
      rw [Nat.div_add_mod, UInt8.ofNat_toNat]
    simp only [encode, decode?, digitValue?_digit high, digitValue?_digit low, ih, whole,
      Option.bind_eq_bind, Option.bind_some, Option.pure_def]

/-- Written bytes are read back where their number is the wanted one. -/
theorem read_encode {bytes : List UInt8} {size : Nat} (length : bytes.length = size) :
    read size (encode bytes) = .ok bytes := by
  -- Neither the length nor any digit is at fault.
  simp [read, textLength_encode, length, firstForeign?_encode, decode?_encode]

end Topics.Hex
