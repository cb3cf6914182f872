import Topics.Proofs.Field.Grammar
import Topics.Proofs.Text.Bytes

/-! A token that a type does not read is refused for what is wrong with it: an identifier for its
marker, for the number of bytes behind it or for the first of these that is no digit, a number for
the first of four conditions that its text breaks, and a label for not being listed. -/

namespace Topics

namespace Hex

/-- The bytes of the hexadecimal digits of either case. -/
def isDigitByte (byte : UInt8) : Bool :=
  Text.isDecimalByte byte || (0x61 ≤ byte && byte ≤ 0x66) || (0x41 ≤ byte && byte ≤ 0x46)

/-- What keeps bytes of text from being the digits of `size` bytes. -/
inductive Faulty (size : Nat) (text : List UInt8) : Fault → Prop where
  /-- There are more or fewer than two for each byte. -/
  | length (other : text.length ≠ 2 * size) : Faulty size text (.length (2 * size) text.length)
  /-- Their number is right, and the first one that is no digit stands behind this front. -/
  | character {front back : List UInt8} {byte : UInt8} (sized : text.length = 2 * size)
      (split : text = front ++ byte :: back) (digits : ∀ other ∈ front, isDigitByte other = true)
      (foreign : isDigitByte byte = false) : Faulty size text (.character byte front.length)

end Hex

/-- What keeps a text from being read as an identifier. -/
inductive Bytes32.Faulty (text : String) : FieldError → Prop where
  /-- It does not start with the marker. -/
  | unmarked (bare : ∀ digits, text ≠ "0x" ++ digits) : Faulty text .unmarked
  /-- What stands behind the marker is not the digits of 32 bytes. -/
  | invalidHex {digits : String} {fault : Hex.Fault} (marked : text = "0x" ++ digits)
      (faulty : Hex.Faulty 32 (Text.bytes digits) fault) : Faulty text (.invalidHex fault)

/-- What keeps a text from being read as a number of at most `bits` bits. -/
inductive Numeral.Faulty (bits : Nat) (text : String) : FieldError → Prop where
  /-- It is empty. -/
  | empty (blank : text = "") : Faulty bits text .emptyInteger
  /-- Some byte of it is no decimal digit. -/
  | foreign {byte : UInt8} (member : byte ∈ Text.bytes text)
      (other : Text.isDecimalByte byte = false) : Faulty bits text (.invalidInteger text)
  /-- It has nothing but digits, and a zero stands in front of others. -/
  | lead (digits : ∀ byte ∈ Text.bytes text, Text.isDecimalByte byte = true)
      (zero : text.toList.head? = some '0') (long : 1 < text.toList.length) :
      Faulty bits text (.leadingZero text)
  /-- It is a numeral, of a number for which the width has no room. -/
  | wide (numeral : IsNumeral text)
      (large : Nat.pow 2 bits ≤ Nat.ofDigitChars 10 text.toList 0) :
      Faulty bits text (.overflow text bits)

/-- What keeps a text from being read as a word of a vocabulary. -/
inductive Vocabulary.Faulty (vocabulary : Vocabulary) (text : String) : FieldError → Prop where
  /-- It is not listed there. -/
  | unlisted (absent : text ∉ vocabulary.words) :
      Faulty vocabulary text (.unknownLiteral vocabulary.name text)

/-- What keeps a token from being read in a type. -/
def FieldType.Faulty : FieldType → String → FieldError → Prop
  | identifier _, token, cause => Bytes32.Faulty token cause
  | integer .blockHeight, token, cause => Numeral.Faulty 64 token cause
  | integer .daBlockHeight, token, cause => Numeral.Faulty 64 token cause
  | integer .u32, token, cause => Numeral.Faulty 32 token cause
  | label vocabulary, token, cause => vocabulary.Faulty token cause

namespace Hex

variable {cs : List Char} {c : Char} {byte : UInt8} {front back : List UInt8} {position place : Nat}

/-- Hexadecimal digits take a byte of their own class each. -/
theorem singleBytes_isDigit : Text.SingleBytes isDigitByte isDigit := by
  apply Text.SingleBytes.of_codes
  · intro byte digit
    simp only [isDigitByte, Text.isDecimalByte, Bool.or_eq_true, Bool.and_eq_true,
      decide_eq_true_eq, UInt8.le_iff_toNat_le] at digit
    -- The three ranges end at `9`, `f` and `F`.
    rcases digit with (⟨-, last⟩ | ⟨-, last⟩) | ⟨-, last⟩
    · have : byte.toNat ≤ 57 := last
      omega
    · have : byte.toNat ≤ 102 := last
      omega
    · have : byte.toNat ≤ 70 := last
      omega
  · intro c digit
    exact toNat_lt_of_isDigit digit
  · -- There are 128 codes to look at.
    decide

/-- The first foreign character stands behind as many bytes as its position says, all of them
digits, and starts with a byte that is none. -/
theorem split_of_firstForeign? (found : firstForeign? position cs = some (c, place)) :
    ∃ front back, cs.flatMap String.utf8EncodeChar = front ++ leadByte c :: back ∧
      place = position + front.length ∧ (∀ other ∈ front, isDigitByte other = true) ∧
      isDigitByte (leadByte c) = false := by
  -- Each digit that is passed adds its one byte to the front.
  induction cs generalizing position with
  | nil => cases found
  | cons head rest ih =>
    cases digit : isDigit head with
    | true =>
      have later : firstForeign? (position + 1) rest = some (c, place) := by
        simpa [firstForeign?, digit] using found
      obtain ⟨front, back, shape, rfl, digits, foreign⟩ := ih later
      obtain ⟨alone, own⟩ := singleBytes_isDigit.inside digit
      refine ⟨leadByte head :: front, back, ?_, ?_, ?_, foreign⟩
      · rw [List.flatMap_cons, alone, shape]
        rfl
      · rw [List.length_cons]
        omega
      · simpa using ⟨own, digits⟩
    | false =>
      -- The character in front is the first foreign one itself.
      obtain ⟨rfl, rfl⟩ : head = c ∧ position = place := by
        simpa [firstForeign?, digit] using found
      obtain ⟨behind, shape⟩ := Text.exists_leadByte_cons head
      refine ⟨[], behind ++ rest.flatMap String.utf8EncodeChar, ?_, rfl, by simp,
        singleBytes_isDigit.outside digit⟩
      rw [List.flatMap_cons, shape]
      rfl

/-- A byte that is no digit, behind digits only, starts the first foreign character. -/
theorem firstForeign?_of_split (position : Nat)
    (shape : cs.flatMap String.utf8EncodeChar = front ++ byte :: back)
    (digits : ∀ other ∈ front, isDigitByte other = true) (foreign : isDigitByte byte = false) :
    ∃ c, firstForeign? position cs = some (c, position + front.length) ∧ leadByte c = byte := by
  -- The walk takes one byte from the front for each digit.
  induction cs generalizing position front with
  | nil => simp at shape
  | cons head rest ih =>
    cases digit : isDigit head with
    | true =>
      obtain ⟨alone, own⟩ := singleBytes_isDigit.inside digit
      rw [List.flatMap_cons, alone, List.singleton_append] at shape
      cases front with
      | nil =>
        -- The byte would be the digit.
        obtain ⟨same, -⟩ := List.cons.inj shape
        rw [← same, own] at foreign
        cases foreign
      | cons first front =>
        obtain ⟨-, shape⟩ := List.cons.inj shape
        obtain ⟨c, found, lead⟩ := ih (position + 1) shape fun other member =>
          digits other (List.mem_cons_of_mem first member)
        refine ⟨c, ?_, lead⟩
        rw [firstForeign?, if_pos digit, found, List.length_cons, Nat.add_right_comm, Nat.add_assoc]
    | false =>
      obtain ⟨behind, own⟩ := Text.exists_leadByte_cons head
      rw [List.flatMap_cons, own, List.cons_append] at shape
      have other := singleBytes_isDigit.outside digit
      cases front with
      | nil =>
        obtain ⟨same, -⟩ := List.cons.inj shape
        exact ⟨head, by simp [firstForeign?, digit], same⟩
      | cons first front =>
        -- The front would begin with the foreign byte.
        obtain ⟨same, -⟩ := List.cons.inj shape
        rw [same, digits first List.mem_cons_self] at other
        cases other

/-- Digits are refused exactly for what is wrong with their bytes. -/
theorem read_eq_error {size : Nat} {fault : Fault} :
    read size cs = .error fault ↔ Faulty size (cs.flatMap String.utf8EncodeChar) fault := by
  have counted := Text.length_flatMap_utf8EncodeChar cs
  constructor
  · intro refused
    unfold read at refused
    split at refused
    · rename_i other
      cases refused
      rw [← counted] at other ⊢
      exact .length other
    · rename_i sized
      -- With the right number of bytes, only a foreign character is left.
      cases found : firstForeign? 0 cs with
      | none => simp [found] at refused
      | some foreign =>
        obtain ⟨c, place⟩ := foreign
        simp only [found, Except.error.injEq] at refused
        subst refused
        obtain ⟨front, back, shape, rfl, digits, other⟩ := split_of_firstForeign? found
        rw [Nat.zero_add]
        exact .character (by omega) shape digits other
  · intro faulty
    cases faulty with
    | length other =>
      rw [counted] at other ⊢
      rw [read, if_pos other]
    | character sized shape digits foreign =>
      obtain ⟨c, found, rfl⟩ := firstForeign?_of_split 0 shape digits foreign
      rw [counted] at sized
      simp [read, sized, found]

end Hex

namespace Bytes32

variable {text : String} {cause : FieldError}

/-- A text without the marker is refused before anything else is looked at. -/
theorem ofText_of_bare (bare : ∀ digits, text ≠ "0x" ++ digits) :
    ofText text = .error .unmarked := by
  unfold ofText
  split
  · rename_i digits shape
    -- The characters behind the marker would make up a text.
    have marked : text = "0x" ++ String.ofList digits := by
      rw [← String.toList_inj]
      simp [shape]
    exact absurd marked (bare _)
  · rfl

/-- With the marker, only the digits can be refused: what is read from them are 32 bytes, so the
number of bytes is never at fault. -/
theorem ofText_marked_eq_error (digits : String) :
    ofText ("0x" ++ digits) = .error cause ↔
      ∃ fault, Hex.read 32 digits.toList = .error fault ∧ cause = .invalidHex fault := by
  have shape : ("0x" ++ digits).toList = '0' :: 'x' :: digits.toList := by
    rw [String.toList_append]
    rfl
  cases read : Hex.read 32 digits.toList with
  | error fault => simp [ofText, shape, read, eq_comm]
  | ok bytes =>
    have sized := (Hex.encode_of_read read).1
    simp [ofText, shape, read, ofBytes, sized]

/-- A text is refused as an identifier exactly for its marker or for the digits behind it. -/
theorem ofText_eq_error : ofText text = .error cause ↔ Faulty text cause := by
  constructor
  · intro refused
    by_cases marked : ∃ digits, text = "0x" ++ digits
    · obtain ⟨digits, rfl⟩ := marked
      obtain ⟨fault, read, rfl⟩ := (ofText_marked_eq_error digits).mp refused
      refine .invalidHex rfl ?_
      rw [Text.bytes_eq_flatMap]
      exact Hex.read_eq_error.mp read
    · have bare : ∀ digits, text ≠ "0x" ++ digits := fun digits same => marked ⟨digits, same⟩
      rw [ofText_of_bare bare] at refused
      cases refused
      exact .unmarked bare
  · intro faulty
    cases faulty with
    | unmarked bare => exact ofText_of_bare bare
    | @invalidHex digits fault marked faulty =>
      rw [Text.bytes_eq_flatMap] at faulty
      rw [marked]
      exact (ofText_marked_eq_error digits).mpr ⟨fault, Hex.read_eq_error.mpr faulty, rfl⟩

end Bytes32

namespace Numeral

variable {bits : Nat} {text : String} {cause : FieldError}

/-- Whatever is wrong with a text as a number is what the reader refuses it for. -/
theorem read_of_faulty (faulty : Faulty bits text cause) : read bits text = .error cause := by
  cases faulty with
  | empty blank =>
    subst blank
    rfl
  | @foreign byte member other =>
    have some_digit : text.toList ≠ [] := by
      intro none
      rw [Text.bytes_eq_flatMap, none] at member
      cases member
    -- If all characters were digits, the byte would be one as well.
    have broken : ¬ text.toList.all Char.isDigit = true := by
      intro digits
      rw [Text.forall_isDecimalByte_iff.mpr digits byte member] at other
      cases other
    simp only [read]
    rw [if_neg some_digit, if_pos broken]
  | lead digits zero long =>
    have some_digit : text.toList ≠ [] := List.length_pos_iff.mp (by omega)
    have digits := Text.forall_isDecimalByte_iff.mp digits
    have front : text.toList.head? = some '0' ∧ text.toList.length ≠ 1 := ⟨zero, by omega⟩
    simp only [read]
    rw [if_neg some_digit, if_neg (not_not.mpr digits), if_pos front]
  | wide numeral large =>
    -- A numeral is the text of its number, which is read unless the width has no room for it.
    have own := read_write_eq bits (Nat.ofDigitChars 10 text.toList 0)
    rwa [write_ofDigitChars numeral, if_neg (Nat.not_lt.mpr large)] at own

/-- A text is refused as a number exactly for what is wrong with it. -/
theorem read_eq_error : read bits text = .error cause ↔ Faulty bits text cause := by
  refine ⟨fun refused => ?_, read_of_faulty⟩
  have found {other : FieldError} (faulty : Faulty bits text other) : Faulty bits text cause := by
    rw [read_of_faulty faulty] at refused
    cases refused
    exact faulty
  -- The text breaks one of the conditions in their order, or it is read.
  by_cases blank : text = ""
  · exact found (.empty blank)
  by_cases digits : ∀ byte ∈ Text.bytes text, Text.isDecimalByte byte = true
  · by_cases front : text.toList.head? = some '0' ∧ 1 < text.toList.length
    · exact found (.lead digits front.1 front.2)
    · have some_digit : text.toList ≠ [] := fun none => blank (String.toList_eq_nil_iff.mp none)
      have positive := List.length_pos_iff.mpr some_digit
      have numeral : IsNumeral text := by
        refine ⟨some_digit, List.all_eq_true.mp (Text.forall_isDecimalByte_iff.mp digits), ?_⟩
        intro zero
        have short : ¬ 1 < text.toList.length := fun long => front ⟨zero, long⟩
        omega
      by_cases large : Nat.pow 2 bits ≤ Nat.ofDigitChars 10 text.toList 0
      · exact found (.wide numeral large)
      · obtain ⟨n, accepted⟩ := exists_read_iff.mpr ⟨numeral, Nat.lt_of_not_le large⟩
        rw [accepted] at refused
        cases refused
  · simp only [not_forall, Bool.not_eq_true] at digits
    obtain ⟨byte, member, foreign⟩ := digits
    exact found (.foreign member foreign)

end Numeral

/-- A text is refused as a word exactly where it is not listed. -/
theorem Vocabulary.read_eq_error {vocabulary : Vocabulary} {text : String} {cause : FieldError} :
    vocabulary.read text = .error cause ↔ vocabulary.Faulty text cause := by
  unfold read label?
  by_cases listed : text ∈ vocabulary.words
  · simp only [listed, ↓reduceDIte, reduceCtorEq, false_iff]
    intro faulty
    cases faulty with
    | unlisted absent => exact absent listed
  · simp only [listed, ↓reduceDIte, Except.error.injEq]
    constructor
    · intro same
      subst same
      exact .unlisted listed
    · intro faulty
      cases faulty with
      | unlisted absent => rfl

/-- A number is at fault for the room that its type reads and writes numbers with. -/
theorem FieldType.faulty_integer {kind : IntegerKind} {token : String} {cause : FieldError} :
    (integer kind).Faulty token cause ↔ Numeral.Faulty kind.bits token cause := by
  -- Both widths are looked up for each kind.
  cases kind with
  | blockHeight => exact Iff.rfl
  | daBlockHeight => exact Iff.rfl
  | u32 => exact Iff.rfl

/-- A token is refused in a type exactly for what is wrong with it there, and something is wrong with
every token outside of the grammar. No token is refused for a number of bytes, for a sign or for
the shape of a value. -/
theorem decode_eq_error_iff_faulty (type : FieldType) (token : String) :
    (∀ cause, type.decode token = .error cause ↔ type.Faulty token cause) ∧
      ((∃ cause, type.Faulty token cause) ↔ ¬ type.Grammar token) ∧
      (∀ expected got, type.decode token ≠ .error (.wrongLength expected got)) ∧
      (∀ value, type.decode token ≠ .error (.negative value)) ∧
      ∀ expected got, type.decode token ≠ .error (.typeMismatch expected got) := by
  have refused (cause : FieldError) :
      type.decode token = .error cause ↔ type.Faulty token cause := by
    cases type with
    | identifier kind =>
      show _ ↔ Bytes32.Faulty token cause
      rw [← Bytes32.ofText_eq_error, FieldType.decode]
      cases Bytes32.ofText token <;> simp
    | integer kind =>
      rw [FieldType.faulty_integer, ← Numeral.read_eq_error, FieldType.decode]
      cases Numeral.read kind.bits token <;> simp
    | label vocabulary =>
      show _ ↔ vocabulary.Faulty token cause
      rw [← Vocabulary.read_eq_error, FieldType.decode]
      cases vocabulary.read token <;> simp
  refine ⟨refused, ?_, fun _ _ wrong => ?_, fun _ wrong => ?_, fun _ _ wrong => ?_⟩
  · -- A token that is not refused is read, and only the grammar is.
    rw [← FieldType.exists_decode_iff]
    simp only [← refused]
    cases type.decode token <;> simp
  -- The readers of all three kinds give causes of their own.
  all_goals
    have faulty := (refused _).mp wrong
    cases type with
    | identifier kind => cases faulty
    | integer kind => cases FieldType.faulty_integer.mp faulty
    | label vocabulary => cases faulty

/-- A letter of two bytes among the digits is refused by the first of them, in its place. -/
example : (FieldType.identifier .txId).decode ("0xaé" ++ String.ofList (List.replicate 61 '0')) =
    .error (.invalidHex (.character 0xC3 1)) := by
  rfl

end Topics
