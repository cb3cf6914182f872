import Topics.Numeral

/-! Each number has exactly one decimal text that is read as the number. -/

namespace Topics.Numeral

/-- A decimal digit is the digit of the number that it stands for. -/
theorem digitChar_of_isDigit {c : Char} (digit : c.isDigit = true) :
    c.toNat - 48 < 10 ∧ (c.toNat - 48).digitChar = c := by
  simp only [Char.isDigit, Bool.and_eq_true, decide_eq_true_eq, ge_iff_le,
    UInt32.le_iff_toNat_le] at digit
  -- The decimal digits are the characters from 48 to 57.
  have first : 48 ≤ c.toNat := digit.1
  have last : c.toNat ≤ 57 := digit.2
  have small : c.toNat - 48 < 10 := by omega
  refine ⟨small, Char.toNat_inj.mp ?_⟩
  rw [Nat.toNat_digitChar_of_lt_ten small]
  omega

/-- Digits behind a positive number are the last digits of the number that they make with it. -/
theorem toDigits_append_digits {cs : List Char} (digits : ∀ c ∈ cs, c.isDigit = true) :
    ∀ n, 0 < n → Nat.toDigits 10 n ++ cs = Nat.toDigits 10 (Nat.ofDigitChars 10 cs n) := by
  -- Each digit makes the number in front of it ten times greater.
  induction cs with
  | nil => simp
  | cons c rest ih =>
    intro n positive
    obtain ⟨small, same⟩ := digitChar_of_isDigit (digits c (by simp))
    have front := Nat.toDigits_append_toDigits (by decide : 1 < 10) positive small
    rw [Nat.toDigits_of_lt_base small, same] at front
    rw [Nat.ofDigitChars_cons, List.append_cons, front]
    exact ih (fun other member => digits other (by simp [member])) _ (by omega)

/-- Digits without a zero in front, or a single digit, are the digits of their number. -/
theorem toDigits_ofDigitChars {cs : List Char} (some_digit : cs ≠ [])
    (digits : ∀ c ∈ cs, c.isDigit = true) (lead : cs.head? = some '0' → cs.length = 1) :
    Nat.toDigits 10 (Nat.ofDigitChars 10 cs 0) = cs := by
  -- The first digit decides whether the text could start with a zero.
  obtain ⟨c, rest, rfl⟩ := List.exists_cons_of_ne_nil some_digit
  obtain ⟨small, same⟩ := digitChar_of_isDigit (digits c (by simp))
  rw [Nat.ofDigitChars_cons, Nat.mul_zero, Nat.zero_add]
  by_cases zero : c = '0'
  · -- A zero in front stands alone.
    subst zero
    have alone : rest = [] := by simpa using lead rfl
    subst alone
    decide
  · -- Any other digit in front is a positive number for the digits behind it.
    have positive : 0 < c.toNat - 48 := by
      have : c.toNat - 48 ≠ 0 := fun none => by
        rw [none] at same
        exact zero same.symm
      omega
    change Nat.toDigits 10 (Nat.ofDigitChars 10 rest (c.toNat - 48)) = c :: rest
    rw [← toDigits_append_digits (fun other member => digits other (by simp [member])) _ positive,
      Nat.toDigits_of_lt_base small, same]
    rfl

/-- A number is read from its text alone, where the width has room for it. -/
theorem read_eq_ok {bits n : Nat} {text : String} :
    read bits text = .ok n ↔ n < Nat.pow 2 bits ∧ write n = text := by
  constructor
  · intro accepted
    -- Each condition that the reader has passed is one that the digits of a number meet.
    unfold read at accepted
    simp only at accepted
    split at accepted
    · cases accepted
    · rename_i some_digit
      split at accepted
      · cases accepted
      · rename_i digits
        split at accepted
        · cases accepted
        · rename_i lead
          split at accepted
          · rename_i small
            injection accepted with value
            subst value
            -- The digits have passed all that is asked of the digits of a number.
            refine ⟨small, ?_⟩
            rw [write, toDigits_ofDigitChars some_digit, String.ofList_toList]
            · simpa using digits
            · intro zero
              by_cases alone : text.toList.length = 1
              · exact alone
              · exact absurd ⟨zero, alone⟩ lead
          · cases accepted
  · -- A number's own text is always read.
    rintro ⟨small, rfl⟩
    exact read_write small

/-- Each character of a number's text is a decimal digit. -/
theorem isDigit_of_mem_write {n : Nat} {c : Char} (member : c ∈ (write n).toList) :
    c.isDigit = true := by
  rw [write, String.toList_ofList] at member
  exact Nat.isDigit_of_mem_toDigits (by decide) (by decide) member

end Topics.Numeral
