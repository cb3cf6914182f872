/-! A byte is shown in messages as a quoted character with escapes for what cannot be printed. -/

namespace Topics.Text

/-- A number in lower-case hexadecimal digits without leading zeros. -/
def hexNumeral (n : Nat) : String := String.ofList (Nat.toDigits 16 n)

/-- Whether a byte, read as a Latin-1 character, has no visible form. -/
def isUnprintable (byte : UInt8) : Bool :=
  byte < 0x20 || (0x7f ≤ byte && byte ≤ 0xa0) || byte == 0xad

/-- The Latin-1 character of a byte between single quotes, escaped where it has no visible form. -/
def quotedByte (byte : UInt8) : String :=
  -- Six bytes have a short escape; a double quote needs none between single quotes.
  let shown :=
    if byte = 0 then "\\0"
    else if byte = 9 then "\\t"
    else if byte = 10 then "\\n"
    else if byte = 13 then "\\r"
    else if byte = 39 then "\\'"
    else if byte = 92 then "\\\\"
    else if isUnprintable byte then "\\u\x7b" ++ hexNumeral byte.toNat ++ "\x7d"
    else String.singleton (Char.ofNat byte.toNat)
  "'" ++ shown ++ "'"

end Topics.Text
