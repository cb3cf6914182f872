import Topics.Proofs.Field.Param

/-! Each field type reads the tokens of its grammar and no others, and a token is read as the value
that is written with it. -/

namespace Topics

/-- The hexadecimal digits of either case. -/
def Hex.digits : List Char := ['0', '1', '2', '3', '4', '5', '6', '7', '8', '9', 'a', 'b', 'c', 'd',
  'e', 'f', 'A', 'B', 'C', 'D', 'E', 'F']

/-- Decimal digits, where a zero in front stands alone. -/
structure IsNumeral (text : String) : Prop where
  /-- There is a digit. -/
  some_digit : text.toList ≠ []
  /-- Every character is a digit, and no sign. -/
  digits : ∀ c ∈ text.toList, c.isDigit = true
  /-- A zero in front is the only digit. -/
  lead : text.toList.head? = some '0' → text.toList.length = 1

/-- Decimal digits of a number for which `bits` bits have room. -/
structure IsNumeralWithin (bits : Nat) (text : String) : Prop where
  /-- The digits stand for a number. -/
  numeral : IsNumeral text
  /-- The number is not too great. -/
  small : Nat.ofDigitChars 10 text.toList 0 < Nat.pow 2 bits

/-- Whether a token has the form that a type asks for. -/
def FieldType.Grammar : FieldType → String → Prop
  | identifier _, token => ∃ digits, token.toList = '0' :: 'x' :: digits ∧ digits.length = 64 ∧
      ∀ c ∈ digits, c ∈ Hex.digits
  | integer .blockHeight, token => IsNumeralWithin 64 token
  | integer .daBlockHeight, token => IsNumeralWithin 64 token
  | integer .u32, token => IsNumeralWithin 32 token
  | label vocabulary, token => token ∈ vocabulary.words

/-- The digits that are read are those of the list. -/
theorem Hex.isDigit_iff {c : Char} : isDigit c = true ↔ c ∈ digits := by
  constructor
  · intro digit
    -- No digit lies behind the first 128 characters, which are looked at one by one.
    have entry : isDigit c = true → c ∈ digits := by
      apply holds_of_table c (toNat_lt_of_isDigit digit)
      decide
    exact entry digit
  · have each : digits.all isDigit = true := by decide
    exact List.all_eq_true.mp each c

/-- Each byte is written with two digits. -/
theorem Hex.length_encode (bytes : List UInt8) : (encode bytes).length = 2 * bytes.length := by
  induction bytes with
  | nil => rfl
  | cons byte rest ih =>
    simp only [encode, List.length_cons, ih]
    omega

/-- Bytes are read from the right number of digits and from nothing else. -/
theorem Hex.exists_read_iff {size : Nat} {cs : List Char} :
    (∃ bytes, read size cs = .ok bytes) ↔ cs.length = 2 * size ∧ ∀ c ∈ cs, isDigit c = true := by
  constructor
  · rintro ⟨bytes, accepted⟩
    obtain ⟨sized, digits, written⟩ := encode_of_read accepted
    refine ⟨?_, digits⟩
    -- The bytes take two digits each when they are written, as many as were read.
    calc cs.length = (encode bytes).length := by rw [written, List.length_map]
      _ = 2 * bytes.length := length_encode bytes
      _ = 2 * size := by rw [sized]
  · rintro ⟨length, digits⟩
    have foreign := (firstForeign?_eq_none 0 cs).mpr digits
    simp [read, textLength_of_digits digits, length, foreign]

/-- An identifier is read from the marker and 64 digits and from nothing else. -/
theorem Bytes32.exists_ofText_iff {text : String} :
    (∃ held, ofText text = .ok held) ↔
      ∃ digits, text.toList = '0' :: 'x' :: digits ∧ digits.length = 64 ∧
        ∀ c ∈ digits, c ∈ Hex.digits := by
  unfold ofText
  split
  · rename_i found shape
    constructor
    · rintro ⟨held, accepted⟩
      cases read : Hex.read 32 found with
      | error fault => simp [read] at accepted
      | ok bytes =>
        obtain ⟨length, each⟩ := Hex.exists_read_iff.mp ⟨bytes, read⟩
        exact ⟨found, shape, length, fun c member => Hex.isDigit_iff.mp (each c member)⟩
    · rintro ⟨digits, shape', length, each⟩
      have same : found = digits := by simpa [shape] using shape'
      subst same
      have counted : found.length = 2 * 32 := length
      obtain ⟨bytes, read⟩ :=
        Hex.exists_read_iff.mpr ⟨counted, fun c member => Hex.isDigit_iff.mpr (each c member)⟩
      -- What is read as 32 bytes makes an identifier.
      have sized := (Hex.encode_of_read read).1
      exact ⟨⟨bytes, sized⟩, by simp [read, ofBytes, sized]⟩
  · rename_i unmarked
    constructor
    · rintro ⟨held, accepted⟩
      cases accepted
    · rintro ⟨digits, shape, _⟩
      exact absurd shape (unmarked digits)

namespace Numeral

/-- The text of a number is a numeral. -/
theorem isNumeral_write (n : Nat) : IsNumeral (write n) where
  some_digit := by
    rw [write, String.toList_ofList]
    exact Nat.toDigits_ne_nil
  digits := fun _ member => isDigit_of_mem_write member
  lead := by
    intro zero
    rw [write, String.toList_ofList] at zero ⊢
    by_cases positive : 0 < n
    · exact absurd zero (head?_toDigits positive)
    · -- Zero alone is written with a zero in front.
      have none : n = 0 := by omega
      subst none
      rfl

/-- A numeral is the text of the number that its digits stand for. -/
theorem write_ofDigitChars {text : String} (numeral : IsNumeral text) :
    write (Nat.ofDigitChars 10 text.toList 0) = text := by
  rw [write, toDigits_ofDigitChars numeral.some_digit numeral.digits numeral.lead,
    String.ofList_toList]

/-- A number is read from a numeral for which the width has room, and from nothing else. -/
theorem exists_read_iff {bits : Nat} {text : String} :
    (∃ n, read bits text = .ok n) ↔ IsNumeralWithin bits text := by
  simp only [read_eq_ok]
  constructor
  · rintro ⟨n, small, same⟩
    subst same
    refine ⟨isNumeral_write n, ?_⟩
    rw [write, String.toList_ofList, Nat.ofDigitChars_ten_toDigits]
    exact small
  · rintro ⟨numeral, small⟩
    exact ⟨_, small, write_ofDigitChars numeral⟩

end Numeral

namespace FieldType

variable {type : FieldType} {kind : IntegerKind} {token : String}

/-- The grammar gives an integer type the room that its numbers are read and written with. -/
theorem grammar_integer : (integer kind).Grammar token ↔ IsNumeralWithin kind.bits token := by
  -- Both widths are looked up for each kind.
  cases kind with
  | blockHeight => exact Iff.rfl
  | daBlockHeight => exact Iff.rfl
  | u32 => exact Iff.rfl

/-- A token is read exactly if it has the form that the type asks for. -/
theorem exists_decode_iff : (∃ value, type.decode token = .ok value) ↔ type.Grammar token := by
  cases type with
  | identifier kind =>
    rw [Grammar, ← Bytes32.exists_ofText_iff, decode]
    cases Bytes32.ofText token <;> simp
  | integer kind =>
    rw [grammar_integer, ← Numeral.exists_read_iff, decode]
    cases Numeral.read kind.bits token <;> simp
  | label vocabulary =>
    rw [Grammar, decode]
    constructor
    · rintro ⟨value, accepted⟩
      cases word : vocabulary.read token with
      | error cause => simp [word] at accepted
      | ok held =>
        -- A label's word is listed in its vocabulary.
        obtain ⟨own, same⟩ := Vocabulary.read_eq_ok.mp word
        rw [← own, ← same]
        exact held.listed
    · intro listed
      have word : vocabulary.read token = .ok ⟨vocabulary, token, listed⟩ :=
        Vocabulary.read_eq_ok.mpr ⟨rfl, rfl⟩
      exact ⟨.label ⟨vocabulary, token, listed⟩, by simp [word]⟩

end FieldType

/-- A type reads exactly the tokens of its grammar, each as the value that is written as the token
in lower case if the type is one of identifiers, and as the token itself otherwise. A value is
written as a token exactly if the token is read as the value and is its text. -/
theorem decode_iff_grammar (type : FieldType) (token : String) :
    ((∃ value, type.decode token = .ok value) ↔ type.Grammar token) ∧
      (∀ value, type.decode token = .ok value ↔
        type.Grammar token ∧ type.encode value = .ok (type.canonicalToken token)) ∧
      ∀ value, type.encode value = .ok token ↔
        type.decode token = .ok value ∧ token = value.text := by
  refine ⟨FieldType.exists_decode_iff, fun value => ⟨fun accepted => ?_, fun written => ?_⟩,
    fun value => ⟨fun written => ?_, fun accepted => ?_⟩⟩
  · exact ⟨FieldType.exists_decode_iff.mp ⟨value, accepted⟩, FieldType.encode_of_decode accepted⟩
  · -- The token is read as some value, and no other value is written like that one.
    obtain ⟨formed, written⟩ := written
    obtain ⟨other, accepted⟩ := FieldType.exists_decode_iff.mpr formed
    rw [FieldType.encode_injective written (FieldType.encode_of_decode accepted)]
    exact accepted
  · exact ⟨FieldType.decode_encode written, (FieldType.text_of_encode written).symm⟩
  · -- The text of a value has no upper case to lose.
    obtain ⟨accepted, same⟩ := accepted
    exact (FieldType.decode_eq_ok_of_lower (same ▸ value.toLower_text)).mp accepted

/-- The greatest number of 32 bits is read, but neither the next one nor zeros in front. -/
example : ((FieldType.integer .u32).decode "4294967295").isOk = true ∧
    ((FieldType.integer .u32).decode "4294967296").isOk = false ∧
    ((FieldType.integer .u32).decode "007").isOk = false := by
  decide

end Topics
