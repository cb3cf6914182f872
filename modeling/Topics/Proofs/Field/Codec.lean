import Topics.Field.Codec
import Topics.Pattern
import Topics.Proofs.Hex
import Topics.Proofs.Numeral

/-! Writing a value as a token and reading it back are inverse but for the case of identifiers. -/

namespace Topics

/-- The bytes of an identifier that was made from bytes are these bytes. -/
theorem Bytes32.bytes_of_ofBytes {raw : List UInt8} {held : Bytes32}
    (made : ofBytes raw = .ok held) : held.bytes = raw := by
  unfold ofBytes at made
  split at made
  · cases made
    rfl
  · cases made

/-- A text that is read as an identifier is a marker and digits, which the identifier is written
with in lower case. -/
theorem Bytes32.text_of_ofText {text : String} {held : Bytes32}
    (accepted : ofText text = .ok held) :
    held.text = text.toLower ∧
      ∃ digits, text.toList = '0' :: 'x' :: digits ∧ ∀ c ∈ digits, Hex.isDigit c = true := by
  unfold ofText at accepted
  split at accepted
  · rename_i digits shape
    cases read : Hex.read 32 digits with
    | error fault => simp [read] at accepted
    | ok bytes =>
      simp only [read] at accepted
      obtain ⟨_, each, written⟩ := Hex.encode_of_read read
      refine ⟨?_, digits, shape, each⟩
      -- The marker has no upper case, and the digits are written in lower case.
      rw [← String.toList_inj, Bytes32.text, write, String.toList_ofList,
        bytes_of_ofBytes accepted, written, toList_toLower, shape]
      rfl
  · cases accepted

namespace Vocabulary

/-- A word is read as a label exactly when it is the word of a label of the vocabulary. -/
theorem read_eq_ok {vocabulary : Vocabulary} {text : String} {held : Label} :
    vocabulary.read text = .ok held ↔ held.vocabulary = vocabulary ∧ held.word = text := by
  unfold read label?
  by_cases listed : text ∈ vocabulary.words
  · simp only [listed, ↓reduceDIte, Except.ok.injEq]
    constructor
    · rintro rfl
      exact ⟨rfl, rfl⟩
    · rintro ⟨sameSet, same⟩
      exact Label.ext sameSet.symm same.symm
  · simp only [listed, ↓reduceDIte, reduceCtorEq, false_iff, not_and]
    -- A label's word is always listed.
    rintro rfl rfl
    exact listed held.listed

end Vocabulary

/-- Letters, digits and the underscore. -/
def isWordCharacter (c : Char) : Bool := c.isAlphanum || c == '_'

/-- No word of a vocabulary has any other character. -/
theorem Vocabulary.words_plain (vocabulary : Vocabulary) :
    ∀ word ∈ vocabulary.words, word.toList.all isWordCharacter = true := by
  cases vocabulary <;> decide

/-- Written bytes have nothing but word characters. -/
theorem Hex.isWordCharacter_of_mem_encode {bytes : List UInt8} {c : Char}
    (member : c ∈ Hex.encode bytes) : isWordCharacter c = true := by
  have each : ∀ n < 16, isWordCharacter (Hex.digit n) = true := by decide
  obtain ⟨n, small, rfl⟩ := Hex.exists_digit_of_mem_encode member
  exact each n small

namespace FieldType

/-- The spelling of a token that its value is written with. -/
def canonicalToken (type : FieldType) (token : String) : String :=
  -- Only identifiers can be spelled in more than one way.
  if type.isIdentifier then token.toLower else token

/-- No integer type is wider than a value can be. -/
theorem bits_le (kind : IntegerKind) : kind.bits ≤ 64 := by
  cases kind <;> decide

/-- The token in which a value of a type is spelled. -/
inductive Spells : FieldType → Value → String → Prop where
  /-- An identifier by its digits. -/
  | identifier (kind : IdentifierKind) (held : Bytes32) :
      Spells (.identifier kind) (.ofIdentifier held) held.text
  /-- A number by its decimal digits, where the width has room for it. -/
  | integer {kind : IntegerKind} {n : UInt64} (small : n.toNat < Nat.pow 2 kind.bits) :
      Spells (.integer kind) (.uint n) (Numeral.write n.toNat)
  /-- A label by its word, in its own vocabulary. -/
  | label (held : Label) : Spells (.label held.vocabulary) (.label held) held.word

/-- A value is written as a token exactly when the token spells it. -/
theorem encode_eq_ok {type : FieldType} {value : Value} {token : String} :
    type.encode value = .ok token ↔ Spells type value token := by
  constructor
  · intro written
    unfold encode at written
    -- Values of another shape than the type are refused in the last case.
    split at written
    · rename_i kind raw
      cases made : Bytes32.ofBytes raw with
      | error cause => simp [made] at written
      | ok held =>
        simp only [made, Except.ok.injEq] at written
        subst written
        rw [← Bytes32.bytes_of_ofBytes made]
        exact .identifier kind held
    · rename_i kind n
      split at written
      · rename_i small
        cases written
        exact .integer small
      · cases written
    · rename_i vocabulary held
      split at written
      · rename_i own
        cases written
        exact own ▸ .label held
      · cases written
    · cases written
  · intro spells
    cases spells with
    | identifier kind held => simp only [encode, Value.ofIdentifier, Bytes32.ofBytes_bytes]
    | integer small => simp only [encode, if_pos small]
    | label held => simp only [encode, if_true]

/-- A written value is read back. -/
theorem decode_encode {type : FieldType} {value : Value} {token : String}
    (written : type.encode value = .ok token) : type.decode token = .ok value := by
  cases encode_eq_ok.mp written with
  | identifier kind held => simp only [decode, Bytes32.ofText_text]
  | integer small =>
    -- What fits the width is read with the same width.
    simp only [decode, Numeral.read_write small, UInt64.ofNat_toNat]
  | label held => simp only [decode, Vocabulary.read_eq_ok.mpr ⟨rfl, rfl⟩]

/-- Different values are never written as the same token. -/
theorem encode_injective {type : FieldType} {a b : Value} {token : String}
    (first : type.encode a = .ok token) (second : type.encode b = .ok token) : a = b := by
  -- Both values are what the token is read as.
  have same := (decode_encode first).symm.trans (decode_encode second)
  injection same

/-- A value that was read is written as its token in the canonical spelling. -/
theorem encode_of_decode {type : FieldType} {value : Value} {token : String}
    (read : type.decode token = .ok value) :
    type.encode value = .ok (type.canonicalToken token) := by
  rw [encode_eq_ok]
  cases type with
  | identifier kind =>
    cases held : Bytes32.ofText token with
    | error cause => simp [decode, held] at read
    | ok identifier =>
      simp only [decode, held, Except.ok.injEq] at read
      subst read
      -- The digits that were read are written in lower case.
      have spelled : identifier.text = canonicalToken (.identifier kind) token :=
        (Bytes32.text_of_ofText held).1
      exact spelled ▸ .identifier kind identifier
  | integer kind =>
    cases number : Numeral.read kind.bits token with
    | error cause => simp [decode, number] at read
    | ok n =>
      simp only [decode, number, Except.ok.injEq] at read
      subst read
      obtain ⟨small, text⟩ := Numeral.read_eq_ok.mp number
      -- The number fits the width of a value, so it is held as it is.
      have held : (UInt64.ofNat n).toNat = n :=
        UInt64.toNat_ofNat_of_lt'
          (Nat.lt_of_lt_of_le small (Nat.pow_le_pow_right (by decide) (bits_le kind)))
      have spelled :
          Numeral.write (UInt64.ofNat n).toNat = canonicalToken (.integer kind) token := by
        rw [held, text]
        rfl
      exact spelled ▸ .integer (held.symm ▸ small)
  | label vocabulary =>
    cases word : vocabulary.read token with
    | error cause => simp [decode, word] at read
    | ok held =>
      simp only [decode, word, Except.ok.injEq] at read
      subst read
      -- A word is its own spelling.
      obtain ⟨rfl, rfl⟩ := Vocabulary.read_eq_ok.mp word
      exact .label held

/-- A token that is read is spelled canonically exactly when it is no identifier or has no digit in
upper case. -/
theorem canonicalToken_eq_self_iff {type : FieldType} {value : Value} {token : String}
    (read : type.decode token = .ok value) :
    type.canonicalToken token = token ↔
      (type.isIdentifier = true → ∀ c ∈ token.toList, Hex.isUpperDigit c = false) := by
  cases type with
  | identifier kind =>
    cases held : Bytes32.ofText token with
    | error cause => simp [decode, held] at read
    | ok identifier =>
      obtain ⟨-, digits, shape, each⟩ := Bytes32.text_of_ofText held
      simp only [canonicalToken, isIdentifier, if_true, forall_const, toLower_text_eq_self_iff,
        shape, List.mem_cons, forall_eq_or_imp]
      -- The marker is in lower case, and behind it every character is a digit.
      refine and_congr (by decide) (and_congr (by decide) (forall₂_congr fun c member => ?_))
      simp [Hex.isUpperDigit, each c member]
  | integer kind => simp [canonicalToken, isIdentifier]
  | label vocabulary => simp [canonicalToken, isIdentifier]

/-- A written value has nothing but word characters. -/
theorem isWordCharacter_of_encode {type : FieldType} {value : Value} {token : String}
    (written : type.encode value = .ok token) : ∀ c ∈ token.toList, isWordCharacter c = true := by
  intro c member
  cases encode_eq_ok.mp written with
  | identifier kind held =>
    -- The marker and the digits are letters and decimal digits.
    simp only [Bytes32.text, Bytes32.write, String.toList_ofList, List.mem_cons] at member
    rcases member with rfl | rfl | member
    · decide
    · decide
    · exact Hex.isWordCharacter_of_mem_encode member
  | integer small => simp [isWordCharacter, Char.isAlphanum, Numeral.isDigit_of_mem_write member]
  | label held =>
    -- A label is one of the listed words.
    exact List.all_eq_true.mp (held.vocabulary.words_plain held.word held.listed) c member

/-- A character whose lower case is a word character is one itself. -/
theorem isWordCharacter_of_toLower {c : Char} (plain : isWordCharacter c.toLower = true) :
    isWordCharacter c = true := by
  by_cases upper : c.isUpper = true
  · have letters : isWordCharacter c = (((c.isUpper || c.isLower) || c.isDigit) || c == '_') := rfl
    simp [letters, upper]
  · rwa [(toLower_eq_self_iff c).mpr (by simpa using upper)] at plain

/-- A token that is read has nothing but word characters. -/
theorem isWordCharacter_of_decode {type : FieldType} {value : Value} {token : String}
    (read : type.decode token = .ok value) : ∀ c ∈ token.toList, isWordCharacter c = true := by
  intro c member
  -- The value is written in the canonical spelling, which is in lower case or the token itself.
  have plain := isWordCharacter_of_encode (encode_of_decode read)
  unfold canonicalToken at plain
  split at plain
  · rw [toList_toLower] at plain
    exact isWordCharacter_of_toLower (plain _ (List.mem_map_of_mem member))
  · exact plain c member

/-- A token that is read is not taken for a wildcard. -/
theorem ne_wildcard_of_decode {type : FieldType} {value : Value} {token : String}
    (read : type.decode token = .ok value) : token ≠ singleWildcard ∧ token ≠ tailWildcard := by
  have plain := isWordCharacter_of_decode read
  -- Neither wildcard is a word character.
  constructor
  · rintro rfl
    exact absurd (plain '*' (by simp [singleWildcard])) (by decide)
  · rintro rfl
    exact absurd (plain '>' (by simp [tailWildcard])) (by decide)

/-- The wildcard of one token is no value. -/
theorem exists_decode_singleWildcard (type : FieldType) :
    ∃ cause, type.decode singleWildcard = .error cause := by
  cases read : type.decode singleWildcard with
  | error cause => exact ⟨cause, rfl⟩
  | ok value => exact absurd rfl (ne_wildcard_of_decode read).1

/-- A written value does not fall apart into tokens. -/
theorem separator_not_mem_encode {type : FieldType} {value : Value} {token : String}
    (written : type.encode value = .ok token) : separator ∉ token.toList := by
  intro member
  have plain := isWordCharacter_of_encode written separator member
  exact absurd plain (by decide)

/-- A written value is not taken for the wildcard of one token. -/
theorem encode_ne_singleWildcard {type : FieldType} {value : Value} {token : String}
    (written : type.encode value = .ok token) : token ≠ singleWildcard :=
  (ne_wildcard_of_decode (decode_encode written)).1

/-- A written value is not taken for the wildcard of a tail. -/
theorem encode_ne_tailWildcard {type : FieldType} {value : Value} {token : String}
    (written : type.encode value = .ok token) : token ≠ tailWildcard :=
  (ne_wildcard_of_decode (decode_encode written)).2

/-- A written value is not empty. -/
theorem encode_ne_empty {type : FieldType} {value : Value} {token : String}
    (written : type.encode value = .ok token) : token ≠ "" := by
  rintro rfl
  have listed (vocabulary : Vocabulary) : "" ∉ vocabulary.words := by
    cases vocabulary <;> decide
  -- It would be read back, and nothing is read from the empty text.
  have read := decode_encode written
  cases type with
  | identifier kind => simp [decode, Bytes32.ofText] at read
  | integer kind => simp [decode, Numeral.read] at read
  | label vocabulary => simp [decode, Vocabulary.read, Vocabulary.label?, listed] at read

end FieldType

end Topics
