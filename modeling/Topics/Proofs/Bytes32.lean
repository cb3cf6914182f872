import Topics.Proofs.Field.Param

/-! Identifiers have the order of their texts: each byte is written as two digits, the high one first,
and digits are ordered as what they stand for. -/

namespace Topics

/-- Texts are ordered by the first byte in which they differ. -/
def compareText (first second : String) : Ordering :=
  List.compareLex Ord.compare first.toUTF8.data.toList second.toUTF8.data.toList

namespace Hex

/-- A digit takes its lead byte and no other. -/
theorem utf8EncodeChar_digit :
    ∀ {n : Nat}, n < 16 → String.utf8EncodeChar (digit n) = [leadByte (digit n)] := by
  -- There are sixteen digits to look at.
  decide

/-- Digits are ordered as the numbers that they stand for. -/
theorem compare_leadByte_digit : ∀ {m : Nat}, m < 16 → ∀ {n : Nat}, n < 16 →
    compare (leadByte (digit m)) (leadByte (digit n)) = compare m n := by
  -- There are sixteen digits on each side to look at.
  decide

/-- Numbers are ordered by their high digits, and by their low ones where the high ones agree. -/
theorem compare_halves (m n : Nat) :
    (compare (m / 16) (n / 16)).then (compare (m % 16) (n % 16)) = compare m n := by
  cases high : compare (m / 16) (n / 16) with
  | lt =>
    -- The low digits are not looked at.
    have less : m / 16 < n / 16 := Nat.compare_eq_lt.mp high
    exact (Nat.compare_eq_lt.mpr (by omega)).symm
  | eq =>
    have same : m / 16 = n / 16 := Nat.compare_eq_eq.mp high
    rw [Ordering.eq_then]
    cases low : compare (m % 16) (n % 16) with
    | lt =>
      have less : m % 16 < n % 16 := Nat.compare_eq_lt.mp low
      exact (Nat.compare_eq_lt.mpr (by omega)).symm
    | eq =>
      have same' : m % 16 = n % 16 := Nat.compare_eq_eq.mp low
      exact (Nat.compare_eq_eq.mpr (by omega)).symm
    | gt =>
      have more : n % 16 < m % 16 := Nat.compare_eq_gt.mp low
      exact (Nat.compare_eq_gt.mpr (by omega)).symm
  | gt =>
    have more : n / 16 < m / 16 := Nat.compare_eq_gt.mp high
    exact (Nat.compare_eq_gt.mpr (by omega)).symm

/-- Written bytes take two bytes of text for each byte. -/
theorem flatMap_encode_cons (byte : UInt8) (rest : List UInt8) :
    (encode (byte :: rest)).flatMap String.utf8EncodeChar =
      leadByte (digit (byte.toNat / 16)) :: leadByte (digit (byte.toNat % 16)) ::
        (encode rest).flatMap String.utf8EncodeChar := by
  obtain ⟨high, low⟩ := halves_lt byte
  simp [encode, utf8EncodeChar_digit high, utf8EncodeChar_digit low]

/-- Written bytes are ordered as the bytes. -/
theorem compareLex_encode (first second : List UInt8) :
    List.compareLex compare ((encode first).flatMap String.utf8EncodeChar)
      ((encode second).flatMap String.utf8EncodeChar) = List.compareLex compare first second := by
  induction first generalizing second with
  | nil =>
    -- The shorter list comes first, written or not.
    cases second with
    | nil => rfl
    | cons byte rest => rw [flatMap_encode_cons]; rfl
  | cons byte rest ih =>
    cases second with
    | nil => rw [flatMap_encode_cons]; rfl
    | cons other more =>
      obtain ⟨high, low⟩ := halves_lt byte
      obtain ⟨high', low'⟩ := halves_lt other
      -- The four digits in front decide as the two bytes do, and behind them the same holds again.
      rw [flatMap_encode_cons, flatMap_encode_cons]
      simp only [List.compareLex_cons_cons]
      rw [compare_leadByte_digit high high', compare_leadByte_digit low low', ih,
        ← Ordering.then_assoc, compare_halves, ← UInt8.compare_eq_toNat_compare_toNat]

end Hex

namespace Bytes32

/-- An identifier takes the bytes of the marker and of its digits as text. -/
theorem toUTF8_text (value : Bytes32) :
    value.text.toUTF8.data.toList =
      '0'.toUInt8 :: 'x'.toUInt8 :: (Hex.encode value.bytes).flatMap String.utf8EncodeChar := by
  -- The marker and the digits are the characters of the text.
  refine (Text.bytes_eq_flatMap value.text).trans ?_
  rw [text, write, String.toList_ofList]
  rfl

/-- The texts of identifiers are ordered as the identifiers. -/
theorem compareText_text (a b : Bytes32) : compareText a.text b.text = a.compare b := by
  rw [compareText, toUTF8_text, toUTF8_text, List.compareLex_cons_cons, List.compareLex_cons_cons,
    Hex.compareLex_encode]
  -- The marker is the same on both sides.
  rfl

/-- Identifiers with the same text are the same. -/
theorem text_inj {a b : Bytes32} : a.text = b.text ↔ a = b := by
  constructor
  · intro same
    have bytes : a.bytes = b.bytes := write_injective same
    cases a
    cases b
    simpa using bytes
  · rintro rfl
    rfl

/-- Identifiers are ordered as their texts, which are the same for the same identifiers only. So
sorted identifiers have their sorted texts. -/
theorem compare_eq_compareText :
    (∀ a b : Bytes32, a.compare b = compareText a.text b.text ∧ (a = b ↔ a.text = b.text)) ∧
      ∀ identifiers : List Bytes32,
        (identifiers.mergeSort fun a b => (a.compare b).isLE).map text =
          (identifiers.map text).mergeSort fun first second => (compareText first second).isLE := by
  refine ⟨fun a b => ⟨(compareText_text a b).symm, text_inj.symm⟩, fun identifiers => ?_⟩
  -- Sorting asks for the order of pairs only.
  apply List.map_mergeSort
  intro a _ b _
  rw [compareText_text]

end Bytes32

end Topics
