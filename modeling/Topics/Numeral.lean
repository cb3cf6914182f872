import Topics.Field.Error

/-! Whole numbers are written in decimal without sign and without leading zeros. -/

namespace Topics.Numeral

/-- The decimal text of a number. -/
def write (n : Nat) : String := String.ofList (Nat.toDigits 10 n)

/-- Reads a number of at most `bits` bits from its only decimal text. -/
def read (bits : Nat) (text : String) : Except FieldError Nat :=
  let digits := text.toList
  let value := Nat.ofDigitChars 10 digits 0
  -- The text is looked at in this order, so each text has one fault at most.
  if digits = [] then .error .emptyInteger
  else if ¬ digits.all Char.isDigit then .error (.invalidInteger text)
  else if digits.head? = some '0' ∧ digits.length ≠ 1 then .error (.leadingZero text)
  else if value < Nat.pow 2 bits then .ok value
  else .error (.overflow text bits)

/-- No number but zero is written with a zero in front. -/
theorem head?_toDigits {n : Nat} (positive : 0 < n) : (Nat.toDigits 10 n).head? ≠ some '0' := by
  induction n using Nat.strongRecOn with
  | ind n ih =>
    by_cases small : n < 10
    · -- A number below ten is its own digit.
      have each : ∀ n < 10, 0 < n → (Nat.toDigits 10 n).head? ≠ some '0' := by decide
      exact each n small positive
    · -- A greater number starts with the digits of its tens.
      rw [Nat.toDigits_of_base_le (by decide) (by omega), List.head?_append]
      have tens := ih (n / 10) (by omega) (by omega)
      cases front : (Nat.toDigits 10 (n / 10)).head? with
      | none => exact absurd (List.head?_eq_none_iff.mp front) Nat.toDigits_ne_nil
      | some c => simpa [front] using tens

/-- A number's text is read back as the number where the width has room for it, and has no other
fault where it has not. -/
theorem read_write_eq (bits n : Nat) : read bits (write n) =
    if n < Nat.pow 2 bits then .ok n else .error (.overflow (write n) bits) := by
  have digits : ∀ c ∈ Nat.toDigits 10 n, c.isDigit = true :=
    fun c member => Nat.isDigit_of_mem_toDigits (by decide) (by decide) member
  have lead : ¬ ((Nat.toDigits 10 n).head? = some '0' ∧ (Nat.toDigits 10 n).length ≠ 1) := by
    rintro ⟨zero, long⟩
    by_cases positive : 0 < n
    · exact head?_toDigits positive zero
    · -- Zero alone starts with a zero, and it has no second digit.
      obtain rfl : n = 0 := by omega
      exact long (by decide)
  simp only [read, write, String.toList_ofList, Nat.ofDigitChars_ten_toDigits]
  rw [if_neg Nat.toDigits_ne_nil, if_neg (by simpa using digits), if_neg lead]

/-- A number's text is read back as the number where the width has room for it. -/
theorem read_write {n bits : Nat} (small : n < Nat.pow 2 bits) : read bits (write n) = .ok n := by
  rw [read_write_eq, if_pos small]

end Topics.Numeral
