import Topics.Bytes32
import Topics.Proofs.Text
import Topics.Proofs.Text.Bytes

/-! Reading hexadecimal digits loses nothing but their case. -/

namespace Topics

namespace Hex

/-- Whether a character is a digit that is written in upper case. -/
def isUpperDigit (c : Char) : Bool := isDigit c && c.isUpper

/-- Each character of written bytes is the digit of a half of one of them. -/
theorem exists_digit_of_mem_encode {bytes : List UInt8} {c : Char} (member : c ∈ encode bytes) :
    ∃ n < 16, c = digit n := by
  induction bytes with
  | nil => cases member
  | cons byte rest ih =>
    obtain ⟨high, low⟩ := halves_lt byte
    -- The first two characters are those of the first byte.
    simp only [encode, List.mem_cons] at member
    rcases member with rfl | rfl | member
    · exact ⟨_, high, rfl⟩
    · exact ⟨_, low, rfl⟩
    · exact ih member

/-- Every digit is among the first 128 characters. -/
theorem toNat_lt_of_isDigit {c : Char} (digit : isDigit c = true) : c.toNat < 128 := by
  -- The last characters of the three ranges are `9`, `f` and `F`.
  simp only [isDigit, digitValue?, Char.le_def, UInt32.le_iff_toNat_le] at digit
  split at digit
  · rename_i decimal
    have last : c.toNat ≤ 57 := decimal.2
    omega
  · split at digit
    · rename_i lower
      have last : c.toNat ≤ 102 := lower.2
      omega
    · split at digit
      · rename_i upper
        have last : c.toNat ≤ 70 := upper.2
        omega
      · simp at digit

/-- A character that is read as a digit is that digit but for its case. -/
theorem digit_of_digitValue? {c : Char} {n : Nat} (found : digitValue? c = some n) :
    n < 16 ∧ digit n = c.toLower := by
  -- All characters that can be digits are looked at one by one.
  have small : c.toNat < 128 := toNat_lt_of_isDigit (by simp [isDigit, found])
  have entry : (digitValue? c).all (fun value => value < 16 && digit value == c.toLower) = true := by
    apply holds_of_table c small
    decide
  rw [found] at entry
  simpa using entry

/-- Digits take one byte of text each. -/
theorem utf8Size_of_isDigit {c : Char} (digit : isDigit c = true) : c.utf8Size = 1 :=
  Text.utf8Size_of_small (toNat_lt_of_isDigit digit)

/-- There is no foreign character exactly when every character is a digit. -/
theorem firstForeign?_eq_none (position : Nat) (cs : List Char) :
    firstForeign? position cs = none ↔ ∀ c ∈ cs, isDigit c = true := by
  induction cs generalizing position with
  | nil => simp [firstForeign?]
  | cons c rest ih =>
    by_cases digit : isDigit c = true
    · simp [firstForeign?, digit, ih]
    · simp [firstForeign?, digit]

/-- A run of digits takes one byte of text for each digit. -/
theorem textLength_of_digits {cs : List Char} (digits : ∀ c ∈ cs, isDigit c = true) :
    textLength cs = cs.length := by
  induction cs with
  | nil => rfl
  | cons c rest ih =>
    have head := utf8Size_of_isDigit (digits c (by simp))
    -- Each digit adds one byte to the length of the others.
    have tail := ih fun other member => digits other (by simp [member])
    simp only [textLength] at tail
    simp only [textLength, List.foldr_cons, head, tail, List.length_cons]
    omega

/-- Both halves of a byte are found in the byte again. -/
theorem byte_halves {high low : Nat} (h : high < 16) (l : low < 16) :
    (UInt8.ofNat (16 * high + low)).toNat / 16 = high ∧
      (UInt8.ofNat (16 * high + low)).toNat % 16 = low := by
  rw [UInt8.toNat_ofNat_of_lt' (by change 16 * high + low < 256; omega)]
  omega

/-- An even number of digits pairs up into bytes, and the bytes are written in lower case. -/
theorem decode?_of_digits (size : Nat) : ∀ cs : List Char, cs.length = 2 * size →
    (∀ c ∈ cs, isDigit c = true) →
      ∃ bytes, decode? cs = some bytes ∧ bytes.length = size ∧
        encode bytes = cs.map Char.toLower := by
  -- Each byte takes two digits from the front.
  induction size with
  | zero =>
    intro cs length _
    obtain rfl : cs = [] := List.length_eq_zero_iff.mp length
    exact ⟨[], rfl, rfl, rfl⟩
  | succ size ih =>
    intro cs length digits
    match cs, length, digits with
    | high :: low :: rest, length, digits =>
      -- Both characters in front are digits, so they make a byte.
      obtain ⟨h, highRead⟩ := Option.isSome_iff_exists.mp (digits high (by simp))
      obtain ⟨l, lowRead⟩ := Option.isSome_iff_exists.mp (digits low (by simp))
      obtain ⟨bytes, decoded, counted, written⟩ := ih rest (by simp at length; omega)
        fun c member => digits c (by simp [member])
      obtain ⟨highSmall, highDigit⟩ := digit_of_digitValue? highRead
      obtain ⟨lowSmall, lowDigit⟩ := digit_of_digitValue? lowRead
      obtain ⟨upper, lower⟩ := byte_halves highSmall lowSmall
      -- The byte is written as its halves, which are the two digits again.
      refine ⟨UInt8.ofNat (16 * h + l) :: bytes, ?_, by simp [counted], ?_⟩
      · simp [decode?, highRead, lowRead, decoded]
      · simp only [encode, upper, lower, highDigit, lowDigit, written, List.map_cons]

/-- What is read as bytes is their writing but for the case of its digits. -/
theorem encode_of_read {size : Nat} {cs : List Char} {bytes : List UInt8}
    (accepted : read size cs = .ok bytes) :
    bytes.length = size ∧ (∀ c ∈ cs, isDigit c = true) ∧ encode bytes = cs.map Char.toLower := by
  unfold read at accepted
  split at accepted
  · cases accepted
  · -- The number of bytes of text has been checked before anything else.
    rename_i length
    cases foreign : firstForeign? 0 cs with
    | some found => simp [foreign] at accepted
    | none =>
      have digits := (firstForeign?_eq_none 0 cs).mp foreign
      -- Without foreign characters the length in bytes is the number of digits.
      have counted : cs.length = 2 * size := by
        rw [← textLength_of_digits digits]
        omega
      obtain ⟨held, decoded, sized, written⟩ := decode?_of_digits size cs counted digits
      simp only [foreign, decoded, Option.getD_some, Except.ok.injEq] at accepted
      subst accepted
      exact ⟨sized, digits, written⟩

end Hex

end Topics
