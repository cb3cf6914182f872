import Topics.Hex
import Topics.Json.Fault

/-! The inside of a quoted JSON string, read up to its closing quote. -/

namespace Topics.Json

/-- A part of a string: a character, or a 16-bit unit given by its number. -/
inductive Piece where
  | char (c : Char)
  | unit (n : Nat)
  deriving DecidableEq, Repr

/-- The character that a short escape stands for. -/
def unescape? (c : Char) : Option Char :=
  if c = '"' ∨ c = '\\' ∨ c = '/' then some c
  else if c = 'b' then some '\x08'
  else if c = 'f' then some '\x0c'
  else if c = 'n' then some '\n'
  else if c = 'r' then some '\r'
  else if c = 't' then some '\t'
  else none

/-- The number that four hexadecimal digits stand for. -/
def unitValue? (a b c d : Char) : Option Nat := do
  let a ← Hex.digitValue? a
  let b ← Hex.digitValue? b
  let c ← Hex.digitValue? c
  let d ← Hex.digitValue? d
  return ((a * 16 + b) * 16 + c) * 16 + d

/-- The pieces before the first fault or the closing quote, and the text behind that quote. -/
def pieces : List Char → List Piece × Except Fault (List Char)
  | [] => ([], .error .truncated)
  | '"' :: rest => ([], .ok rest)
  -- Pairs of units are put together later, so a unit stands for itself here.
  | '\\' :: 'u' :: a :: b :: c :: d :: rest =>
    match unitValue? a b c d with
    | none => ([], .error .malformed)
    | some n => let (more, ending) := pieces rest; (.unit n :: more, ending)
  | '\\' :: 'u' :: rest =>
    -- A unit needs four bytes of text before its digits are looked at.
    ([], .error (if Hex.textLength rest < 4 then .truncated else .malformed))
  | '\\' :: c :: rest =>
    match unescape? c with
    | none => ([], .error .malformed)
    | some plain => let (more, ending) := pieces rest; (.char plain :: more, ending)
  | ['\\'] => ([], .error .truncated)
  | c :: rest =>
    -- Control characters have to be escaped.
    if c < ' ' then ([], .error .malformed)
    else let (more, ending) := pieces rest; (.char c :: more, ending)

/-- Whether a unit is the first half of a pair. -/
def isLeading (n : Nat) : Bool := 0xD800 ≤ n && n < 0xDC00

/-- Whether a unit is the second half of a pair. -/
def isTrailing (n : Nat) : Bool := 0xDC00 ≤ n && n < 0xE000

/-- The characters that pieces stand for; halves that are not paired are refused. -/
def assemble (ending : Except Fault (List Char)) :
    List Piece → Except Fault (List Char × List Char)
  | [] => ending.map (fun rest => ([], rest))
  | .char c :: more => (assemble ending more).map (fun (text, rest) => (c :: text, rest))
  | .unit high :: .unit low :: more =>
    -- Two halves in order give one character beyond the first 65536.
    if isTrailing high then .error .malformed
    else if isLeading high then
      if isTrailing low then
        let c := Char.ofNat (0x10000 + (high - 0xD800) * 0x400 + (low - 0xDC00))
        (assemble ending more).map (fun (text, rest) => (c :: text, rest))
      else .error .malformed
    else
      (assemble ending (.unit low :: more)).map (fun (text, rest) => (Char.ofNat high :: text, rest))
  | .unit n :: more =>
    if isTrailing n then .error .malformed
    else if isLeading n then
      -- The other half is missing, unless the text broke off before it.
      match more, ending with
      | [], .error fault => .error fault
      | _, _ => .error .malformed
    else (assemble ending more).map (fun (text, rest) => (Char.ofNat n :: text, rest))

end Topics.Json
