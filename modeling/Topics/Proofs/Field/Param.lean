import Topics.Field.Param
import Topics.Proofs.Field.Codec

/-! A value travels by its text: as a parameter it is read as whichever value of the field's type is
written with this text, and that is another value only where two vocabularies list the same word. A
number is read like its decimal text, and what was read comes back from its own parameter. -/

namespace Topics

variable {type : FieldType} {value read : Value} {token text : String}

/-- A decimal digit is no letter in upper case. -/
theorem isUpper_of_isDigit {c : Char} (digit : c.isDigit = true) : c.isUpper = false := by
  rw [← Bool.not_eq_true]
  intro upper
  delta Char.isUpper at upper
  simp only [Char.isDigit, Bool.and_eq_true, decide_eq_true_eq, ge_iff_le,
    UInt32.le_iff_toNat_le] at digit upper
  -- The digits end at 57, and the letters begin at 65.
  have last : c.val.toNat ≤ 57 := digit.2
  have first : 65 ≤ c.val.toNat := upper.1
  omega

/-- Written bytes have no letter in upper case. -/
theorem Hex.isUpper_of_mem_encode {bytes : List UInt8} {c : Char}
    (member : c ∈ Hex.encode bytes) : c.isUpper = false := by
  have each : ∀ n < 16, (Hex.digit n).isUpper = false := by decide
  obtain ⟨n, small, rfl⟩ := Hex.exists_digit_of_mem_encode member
  exact each n small

/-- Different bytes are written differently. -/
theorem Bytes32.write_injective {first second : List UInt8} (same : write first = write second) :
    first = second := by
  rw [← String.toList_inj, write, write, String.toList_ofList, String.toList_ofList] at same
  simp only [List.cons.injEq, true_and] at same
  -- The digits behind the marker pair up into the bytes.
  have back := Hex.decode?_encode first
  rw [same, Hex.decode?_encode, Option.some.injEq] at back
  exact back.symm

/-- Different numbers are written differently. -/
theorem Numeral.write_injective {first second : Nat} (same : write first = write second) :
    first = second := by
  rw [← String.toList_inj, write, write, String.toList_ofList, String.toList_ofList] at same
  calc first
      = Nat.ofDigitChars 10 (Nat.toDigits 10 first) 0 := Nat.ofDigitChars_ten_toDigits.symm
    _ = Nat.ofDigitChars 10 (Nat.toDigits 10 second) 0 := by rw [same]
    _ = second := Nat.ofDigitChars_ten_toDigits

/-- Whether a text starts with a decimal digit, and whether it has nothing but decimal digits. -/
def digitShape (text : String) : Bool × Bool :=
  (text.toList.head?.any Char.isDigit, text.toList.all Char.isDigit)

namespace Vocabulary

/-- No word of a vocabulary has a letter in upper case. -/
theorem words_lower (vocabulary : Vocabulary) :
    ∀ word ∈ vocabulary.words, word.toList.any Char.isUpper = false := by
  cases vocabulary <;> decide

/-- No word of a vocabulary starts with a digit. -/
theorem digitShape_words (vocabulary : Vocabulary) :
    ∀ word ∈ vocabulary.words, digitShape word = (false, false) := by
  cases vocabulary <;> decide

end Vocabulary

namespace Value

/-- The text of a value has no letter in upper case. -/
theorem toLower_text (value : Value) : value.text.toLower = value.text := by
  rw [toLower_text_eq_self_iff]
  intro c member
  cases value with
  | bytes raw =>
    simp only [Value.text, Bytes32.write, String.toList_ofList, List.mem_cons] at member
    rcases member with rfl | rfl | member
    · decide
    · decide
    · exact Hex.isUpper_of_mem_encode member
  | uint n => exact isUpper_of_isDigit (Numeral.isDigit_of_mem_write member)
  | label held =>
    -- A label is one of the listed words.
    have lower := held.vocabulary.words_lower held.word held.listed
    simpa using List.any_eq_false.mp lower c member

/-- The text of bytes starts with a digit and has a letter behind it. -/
theorem digitShape_bytes (raw : List UInt8) : digitShape (bytes raw).text = (true, false) := by
  simp [digitShape, Value.text, Bytes32.write]

/-- The text of a number has nothing but digits. -/
theorem digitShape_uint (n : UInt64) : digitShape (uint n).text = (true, true) := by
  have digits : ∀ c ∈ (uint n).text.toList, c.isDigit = true :=
    fun c member => Numeral.isDigit_of_mem_write member
  -- There is at least one digit.
  obtain ⟨first, rest, shape⟩ : ∃ first rest, (uint n).text.toList = first :: rest := by
    rw [Value.text, Numeral.write, String.toList_ofList]
    exact List.exists_cons_of_ne_nil Nat.toDigits_ne_nil
  rw [digitShape, List.all_eq_true.mpr digits, shape]
  simp [digits first (by simp [shape])]

/-- Two values have the same text exactly when they are the same or are labels of the same word. -/
theorem text_eq_text_iff {first second : Value} :
    first.text = second.text ↔ first = second ∨
      ∃ a b : Label, first = label a ∧ second = label b ∧ a.word = b.word := by
  constructor
  · intro same
    -- Texts of different kinds of values differ in where they have digits.
    have shape := congrArg digitShape same
    have word (held : Label) : digitShape (label held).text = (false, false) :=
      held.vocabulary.digitShape_words held.word held.listed
    cases first <;> cases second <;>
      simp only [digitShape_bytes, digitShape_uint, word, Prod.mk.injEq, reduceCtorEq, and_false,
        and_true] at shape
    case bytes.bytes raw other => exact Or.inl (congrArg bytes (Bytes32.write_injective same))
    case uint.uint n m =>
      exact Or.inl (congrArg uint (UInt64.toNat_inj.mp (Numeral.write_injective same)))
    case label.label a b => exact Or.inr ⟨a, b, rfl, rfl, same⟩
  · rintro (rfl | ⟨a, b, rfl, rfl, same⟩)
    · rfl
    · exact same

/-- No value is null as a parameter. -/
theorem isNull_toJson (value : Value) : value.toJson.isNull = false := by
  cases value <;> rfl

end Value

namespace FieldType

/-- The token of a value is the value's text. -/
theorem text_of_encode (written : type.encode value = .ok token) : value.text = token := by
  cases encode_eq_ok.mp written with
  | identifier kind held => rfl
  | integer small => rfl
  | label held => rfl

/-- A text without letters in upper case is read as the value that is written as the text. -/
theorem decode_eq_ok_of_lower (lower : text.toLower = text) :
    type.decode text = .ok read ↔ type.encode read = .ok text := by
  constructor
  · intro decoded
    -- The canonical spelling of the text is the text itself.
    have written := encode_of_decode decoded
    rwa [canonicalToken, lower, ite_self] at written
  · exact decode_encode

/-- A string is read like a token, and what is read can be written. -/
theorem ofJson_string : type.ofJson (.string text) = .ok read ↔ type.decode text = .ok read := by
  have token : type.readParam (.string text) = type.decode text := by cases type <;> rfl
  rw [ofJson, token]
  cases decoded : type.decode text with
  | error cause => simp
  | ok value => simp [encode_of_decode decoded]

/-- A whole number is read as itself where it can be written. -/
theorem ofJson_natural {n : UInt64} : type.ofJson (.number (.natural n)) = .ok read ↔
    read = .uint n ∧ ∃ token, type.encode (.uint n) = .ok token := by
  rw [ofJson]
  cases type with
  | identifier kind => simp [readParam, encode]
  | label vocabulary => simp [readParam, encode]
  | integer kind =>
    simp only [readParam]
    cases written : (integer kind).encode (.uint n) <;> simp [eq_comm]

/-- As a parameter, a value is read as the value that is written with its text. -/
theorem ofJson_toJson : type.ofJson value.toJson = .ok read ↔ type.encode read = .ok value.text := by
  cases value with
  | bytes raw =>
    exact ofJson_string.trans (decode_eq_ok_of_lower (Value.bytes raw).toLower_text)
  | label held =>
    exact ofJson_string.trans (decode_eq_ok_of_lower (Value.label held).toLower_text)
  | uint n =>
    refine ofJson_natural.trans ⟨?_, fun written => ?_⟩
    · rintro ⟨rfl, token, written⟩
      rw [written, text_of_encode written]
    · -- No other value has the text of a number.
      rcases Value.text_eq_text_iff.mp (text_of_encode written) with rfl | ⟨_, _, -, other, -⟩
      · exact ⟨rfl, _, written⟩
      · cases other

/-- What is read from a parameter is written as its text. -/
theorem encode_of_ofJson {param : Json} (accepted : type.ofJson param = .ok value) :
    type.encode value = .ok value.text := by
  rw [ofJson] at accepted
  cases inner : type.readParam param with
  | error cause => simp [inner] at accepted
  | ok first =>
    cases written : type.encode first with
    | error cause => simp [inner, written] at accepted
    | ok token =>
      -- The value is passed on after it has been written.
      simp only [inner, written, Except.ok.injEq] at accepted
      subst accepted
      rw [written, text_of_encode written]

/-- A number is read like its decimal text, and refused for the same reason. -/
theorem ofJson_natural_eq_decode (kind : IntegerKind) (n : UInt64) :
    (integer kind).ofJson (.number (.natural n)) =
      (integer kind).decode (Numeral.write n.toNat) := by
  -- The parameter is compared with the width when it is written, the text when it is read.
  simp only [ofJson, readParam, encode, decode, Numeral.read_write_eq]
  by_cases small : n.toNat < Nat.pow 2 kind.bits
  · simp only [if_pos small, UInt64.ofNat_toNat]
  · simp only [if_neg small]

/-- A label is written in its own vocabulary and as its word. -/
theorem encode_label {held : Label} :
    type.encode (.label held) = .ok token ↔ type = .label held.vocabulary ∧ held.word = token := by
  rw [encode_eq_ok]
  constructor
  · rintro ⟨⟩
    exact ⟨rfl, rfl⟩
  · rintro ⟨rfl, rfl⟩
    exact .label held

/-- The value is a label of another vocabulary, with a word that the vocabulary of this type lists
as well. -/
def Borrows : FieldType → Value → Prop
  | .label vocabulary, .label held => held.vocabulary ≠ vocabulary ∧ held.word ∈ vocabulary.words
  | _, _ => False

/-- Some value is written with the text of a given one exactly when the given one can be written
itself or is a label with a borrowed word. -/
theorem exists_encode_text :
    (∃ other, type.encode other = .ok value.text) ↔
      (∃ token, type.encode value = .ok token) ∨ type.Borrows value := by
  constructor
  · rintro ⟨other, written⟩
    rcases Value.text_eq_text_iff.mp (text_of_encode written) with rfl | ⟨own, held, rfl, rfl, same⟩
    · exact Or.inl ⟨_, written⟩
    · -- A label of the type is written, and the given one has its word.
      obtain ⟨rfl, -⟩ := encode_label.mp written
      by_cases inside : held.vocabulary = own.vocabulary
      · exact Or.inl ⟨_, encode_label.mpr ⟨congrArg FieldType.label inside.symm, rfl⟩⟩
      · exact Or.inr ⟨inside, same ▸ own.listed⟩
  · rintro (⟨token, written⟩ | borrows)
    · exact ⟨value, text_of_encode written ▸ written⟩
    · cases type with
      | identifier kind => cases borrows
      | integer kind => cases borrows
      | label vocabulary =>
        cases value with
        | bytes raw => cases borrows
        | uint n => cases borrows
        | label held =>
          -- The word makes a label of the type's own vocabulary.
          exact ⟨.label ⟨vocabulary, held.word, borrows.2⟩, encode_label.mpr ⟨rfl, rfl⟩⟩

end FieldType

/-- Parameters and tokens give the same values: a number is read like the token with its decimal
text, as the same value or with the same fault, and whatever a parameter is read as can be written
as a token and is read back from its own parameter. -/
theorem params_agree :
    (∀ (kind : IntegerKind) (n : UInt64),
      (FieldType.integer kind).ofJson (.number (.natural n)) =
        (FieldType.integer kind).decode (Numeral.write n.toNat)) ∧
    ∀ (type : FieldType) (param : Json) (value : Value), type.ofJson param = .ok value →
      type.encode value = .ok value.text ∧ type.ofJson value.toJson = .ok value := by
  refine ⟨FieldType.ofJson_natural_eq_decode, fun type param value accepted => ?_⟩
  have written := FieldType.encode_of_ofJson accepted
  -- The value is the one that is written with its text, which is what its parameter is read as.
  exact ⟨written, FieldType.ofJson_toJson.mpr written⟩

/-- One more than the greatest number of 32 bits is too wide as a number and as a token, and the
greatest one, given as a string, is read back from its own parameter, which is a number. -/
theorem params_agree_width :
    (FieldType.integer .u32).ofJson (.number (.natural 4294967296)) =
        (FieldType.integer .u32).decode "4294967296" ∧
      (FieldType.integer .u32).decode "4294967296" = .error (.overflow "4294967296" 32) ∧
      (FieldType.integer .u32).ofJson (.string "4294967295") = .ok (.uint 4294967295) ∧
      (FieldType.integer .u32).ofJson (.number (.natural 4294967295)) = .ok (.uint 4294967295) := by
  have accepted : (FieldType.integer .u32).ofJson (.string "4294967295") =
      .ok (.uint 4294967295) := rfl
  exact ⟨params_agree.1 .u32 4294967296, rfl, accepted, (params_agree.2 _ _ _ accepted).2⟩

end Topics
