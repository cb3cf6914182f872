import Topics.Hex

/-! Texts as bytes. A character below 128 takes one byte, its own code, and any other character
starts with a greater byte. So a class of bytes below 128 is found in a text byte by byte exactly as
the characters of its codes are found character by character. -/

namespace Topics.Text

/-- The bytes that a text takes. -/
def bytes (text : String) : List UInt8 := text.toUTF8.data.toList

/-- A text takes the bytes of its characters, one character after the other. -/
theorem bytes_eq_flatMap (text : String) :
    bytes text = text.toList.flatMap String.utf8EncodeChar := by
  -- The text is put together again from its characters.
  rw [bytes, String.toUTF8_eq_toByteArray, ← String.utf8Encode_toList, List.utf8Encode,
    List.data_toByteArray]

variable {c : Char} {cs : List Char}

/-- Characters of one byte end at 127. -/
theorem utf8Size_of_small (small : c.toNat < 128) : c.utf8Size = 1 := by
  rw [Char.utf8Size_eq_one_iff, UInt32.le_iff_toNat_le]
  show c.toNat ≤ 127
  omega

/-- A character below 128 takes its own code and no other byte. -/
theorem utf8EncodeChar_of_small (small : c.toNat < 128) :
    String.utf8EncodeChar c = [UInt8.ofNat c.toNat] := by
  rw [String.utf8EncodeChar_eq_singleton (utf8Size_of_small small)]
  -- The code is cut off to a byte on both sides.
  rfl

/-- Each character takes its lead byte first. -/
theorem exists_leadByte_cons (c : Char) :
    ∃ rest, String.utf8EncodeChar c = Hex.leadByte c :: rest := by
  -- There is at least one byte to start with.
  have positive := Char.utf8Size_pos c
  rw [← String.length_utf8EncodeChar] at positive
  obtain ⟨lead, rest, shape⟩ := List.exists_cons_of_length_pos positive
  exact ⟨rest, by rw [Hex.leadByte, shape, List.headD_cons]⟩

/-- The lead byte of any other character lies above all that stand alone. -/
theorem leadByte_of_large (large : 128 ≤ c.toNat) : 128 ≤ (Hex.leadByte c).toNat := by
  -- Two, three or four bytes begin with a mark of their number in the highest bits.
  unfold Hex.leadByte
  delta String.utf8EncodeChar
  have several : ¬ c.val.toNat ≤ 0x7f := by
    show ¬ c.toNat ≤ 0x7f
    omega
  simp only [if_neg several]
  split
  · simp only [List.headD_cons, UInt8.toNat_ofNat']
    omega
  · split
    · simp only [List.headD_cons, UInt8.toNat_ofNat']
      omega
    · simp only [List.headD_cons, UInt8.toNat_ofNat']
      omega

/-- Characters take as many bytes as their sizes add up to. -/
theorem length_flatMap_utf8EncodeChar (cs : List Char) :
    (cs.flatMap String.utf8EncodeChar).length = Hex.textLength cs := by
  induction cs with
  | nil => rfl
  | cons c rest ih =>
    rw [List.flatMap_cons, List.length_append, String.length_utf8EncodeChar, ih]
    rfl

section Class

variable {p : UInt8 → Bool} {q : Char → Bool}

/-- The bytes of the one class are what the characters of the other one take, which is a single byte
each. -/
structure SingleBytes (p : UInt8 → Bool) (q : Char → Bool) : Prop where
  /-- A character of the class takes one byte, which is of the class. -/
  inside {c : Char} (own : q c = true) :
    String.utf8EncodeChar c = [Hex.leadByte c] ∧ p (Hex.leadByte c) = true
  /-- Any other character starts with a byte that is not. -/
  outside {c : Char} (other : q c = false) : p (Hex.leadByte c) = false

/-- A class of codes below 128 is found in bytes as it is found in characters. -/
theorem SingleBytes.of_codes (ascii : ∀ byte, p byte = true → byte.toNat < 128)
    (narrow : ∀ c, q c = true → c.toNat < 128)
    (same : ∀ code < 128, q (Char.ofNat code) = p (UInt8.ofNat code)) : SingleBytes p q := by
  -- Below 128 the lead byte is the code itself, and above it neither class has a member.
  have own {c : Char} (small : c.toNat < 128) :
      String.utf8EncodeChar c = [Hex.leadByte c] ∧ p (Hex.leadByte c) = q c := by
    have code := same c.toNat small
    rw [Char.ofNat_toNat] at code
    rw [Hex.leadByte, utf8EncodeChar_of_small small, List.headD_cons]
    exact ⟨rfl, code.symm⟩
  constructor
  · intro c inside
    obtain ⟨alone, agrees⟩ := own (narrow c inside)
    exact ⟨alone, agrees.trans inside⟩
  · intro c outside
    by_cases small : c.toNat < 128
    · exact (own small).2.trans outside
    · have large := leadByte_of_large (Nat.le_of_not_lt small)
      rw [← Bool.not_eq_true]
      intro held
      have := ascii _ held
      omega

/-- All bytes of a text are of the class exactly when all of its characters are. -/
theorem SingleBytes.forall_mem_iff (single : SingleBytes p q) :
    (∀ byte ∈ cs.flatMap String.utf8EncodeChar, p byte = true) ↔ ∀ c ∈ cs, q c = true := by
  constructor
  · intro all c member
    obtain ⟨rest, shape⟩ := exists_leadByte_cons c
    have lead := all (Hex.leadByte c) (List.mem_flatMap.mpr ⟨c, member, by simp [shape]⟩)
    -- A character outside of the class would have shown in its first byte.
    rw [← Bool.not_eq_false]
    intro other
    rw [single.outside other] at lead
    cases lead
  · intro all byte member
    obtain ⟨c, listed, own⟩ := List.mem_flatMap.mp member
    obtain ⟨alone, held⟩ := single.inside (all c listed)
    rw [alone, List.mem_singleton] at own
    rw [own]
    exact held

end Class

/-- The bytes of the decimal digits. -/
def isDecimalByte (byte : UInt8) : Bool := 0x30 ≤ byte && byte ≤ 0x39

/-- Decimal digits take a byte of their own class each. -/
theorem singleBytes_isDigit : SingleBytes isDecimalByte Char.isDigit := by
  apply SingleBytes.of_codes
  · intro byte digit
    simp only [isDecimalByte, Bool.and_eq_true, decide_eq_true_eq, UInt8.le_iff_toNat_le] at digit
    have last : byte.toNat ≤ 57 := digit.2
    omega
  · intro c digit
    simp only [Char.isDigit, Bool.and_eq_true, decide_eq_true_eq, UInt32.le_iff_toNat_le] at digit
    have last : c.toNat ≤ 57 := digit.2
    omega
  · -- There are 128 codes to look at.
    decide

/-- All bytes of a text are decimal digits exactly when all of its characters are. -/
theorem forall_isDecimalByte_iff {text : String} :
    (∀ byte ∈ bytes text, isDecimalByte byte = true) ↔ text.toList.all Char.isDigit = true := by
  rw [bytes_eq_flatMap, singleBytes_isDigit.forall_mem_iff, List.all_eq_true]

end Topics.Text
