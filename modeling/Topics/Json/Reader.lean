import Topics.Json.Basic
import Topics.Json.Quoted

/-! JSON text is read in one pass, and the first fault from the left decides. -/

namespace Topics.Json

/-- A step that reads from the front of the remaining text. -/
abbrev Reader := StateT (List Char) (Except Fault)

namespace Reader

/-- Refuses the text. -/
def fail {α : Type} (fault : Fault) : Reader α := fun _ => .error fault

/-- The next character, which stays unread. -/
def peek? : Reader (Option Char) := return (← get).head?

/-- Passes over the next character. -/
def advance : Reader Unit := modify List.tail

/-- Passes over blanks. -/
def skipBlanks : Reader Unit :=
  modify (List.dropWhile fun c => c == ' ' || c == '\t' || c == '\n' || c == '\r')

/-- The next character after blanks; the text must not end before it. -/
def next : Reader Char := do
  skipBlanks
  match ← peek? with
  | none => fail .truncated
  | some c => return c

/-- Passes over the given characters. -/
def expect : List Char → Reader Unit
  | [] => return ()
  | c :: rest => do
    match ← peek? with
    | none => fail .truncated
    | some found => if found = c then advance else fail .malformed
    expect rest

/-- The run of decimal digits at the front, possibly empty. -/
def digits : Reader (List Char) := do
  let text ← get
  set (text.dropWhile Char.isDigit)
  return text.takeWhile Char.isDigit

/-- How closely a value is looked at. -/
inductive Care where
  /-- The value is wanted. -/
  | exact
  /-- The value is passed over, and only its grammar is looked at. -/
  | skimmed
  deriving DecidableEq, Repr

/-- The fault of a number that ends too early. -/
def Care.shortNumber : Care → Fault
  | exact => .truncated
  | skimmed => .malformed

/-- One or more digits where a number needs them. -/
def someDigits (care : Care) : Reader (List Char) := do
  match ← peek? with
  | none => fail care.shortNumber
  | some c => if c.isDigit then digits else fail .malformed

/-- The digits of a number without its sign: before the point, behind it, and the exponent. -/
structure Spelling where
  /-- The digits before the point. -/
  whole : List Char
  /-- The digits behind the point, where there is one. -/
  fraction : Option (List Char)
  /-- The power of ten, where one is given. -/
  exponent : Option Int

/-- Digits before the point; zero stands alone. -/
def wholeDigits (care : Care) : Reader (List Char) := do
  let run ← someDigits care
  -- A zero in front of other digits would make two spellings of one number.
  match run with
  | '0' :: _ :: _ => fail .malformed
  | _ => return run

/-- A point and digits, where there is a point. -/
def fractionDigits (care : Care) : Reader (Option (List Char)) := do
  match ← peek? with
  | some '.' =>
    advance
    return some (← someDigits care)
  | _ => return none

/-- An exponent, where there is one. -/
def exponentPart (care : Care) : Reader (Option Int) := do
  match ← peek? with
  | some c =>
    if c = 'e' ∨ c = 'E' then
      advance
      let sign ← peek?
      if sign = some '+' ∨ sign = some '-' then advance
      let size : Int := Nat.ofDigitChars 10 (← someDigits care) 0
      return some (if sign = some '-' then -size else size)
    else return none
  | none => return none

/-- A number without its sign. -/
def spelling (care : Care) : Reader Spelling := do
  let whole ← wholeDigits care
  let fraction ← fractionDigits care
  let exponent ← exponentPart care
  return ⟨whole, fraction, exponent⟩

/-- The digits collected so far, as a number below two to the power of 64 and a power of ten. -/
structure Collected where
  /-- The digits that there was room for. -/
  significand : Nat := 0
  /-- The power of ten of the last one. -/
  exponent : Int := 0
  /-- Whether a digit found no room in its run. -/
  full : Bool := false

/-- Adds a digit before the point; where it finds no room it counts as a zero. -/
def Collected.pushWhole (held : Collected) (c : Char) : Collected :=
  let grown := held.significand * 10 + (c.toNat - 48)
  if held.full ∨ Nat.pow 2 64 ≤ grown then { held with exponent := held.exponent + 1, full := true }
  else { held with significand := grown }

/-- Adds a digit behind the point; where one finds no room the rest of them is dropped. -/
def Collected.pushFraction (held : Collected) (c : Char) : Collected :=
  let grown := held.significand * 10 + (c.toNat - 48)
  if held.full ∨ Nat.pow 2 64 ≤ grown then { held with full := true }
  else { held with significand := grown, exponent := held.exponent - 1 }

/-- The size that digits and exponent spell, unless it is too great for a finite number. -/
def Spelling.size? (spelled : Spelling) : Option Decimal.Magnitude := do
  -- Digits are collected up to a bound, rounded once, and then scaled by a power of ten.
  let whole := spelled.whole.foldl Collected.pushWhole {}
  let all := (spelled.fraction.getD []).foldl Collected.pushFraction { whole with full := false }
  let size ← Decimal.Magnitude.nearest? all.significand 1
  size.scaleTen? (all.exponent + spelled.exponent.getD 0)

/-- The number that a sign and digits spell. -/
def Spelling.number? (spelled : Spelling) (minus : Bool) : Option Number :=
  -- A point, an exponent or too great a size makes a real number; so does the sign of zero.
  let real := spelled.size?.map (fun size => Number.real ⟨minus, size⟩)
  match spelled.fraction, spelled.exponent with
  | none, none =>
    let n := Nat.ofDigitChars 10 spelled.whole 0
    if minus then if 0 < n ∧ n ≤ Nat.pow 2 63 then some (.negative (-n)) else real
    else if n < Nat.pow 2 64 then some (.natural (UInt64.ofNat n))
    else real
  | _, _ => real

/-- A number, its sign included. -/
def signedNumber (care : Care) : Reader Number := do
  let minus := (← peek?) = some '-'
  if minus then advance
  let spelled ← spelling care
  -- A number that is passed over may be of any size.
  match care, spelled.number? minus with
  | .exact, some value => return value
  | .exact, none => fail .malformed
  | .skimmed, _ => return .natural 0

/-- A string behind its opening quote. -/
def stringBody (care : Care) : Reader String := do
  -- Units without a partner matter only where the string is wanted.
  let (parts, ending) := pieces (← get)
  match care with
  | .exact =>
    match assemble ending parts with
    | .error fault => fail fault
    | .ok (text, rest) =>
      set rest
      return String.ofList text
  | .skimmed =>
    match ending with
    | .error fault => fail fault
    | .ok rest =>
      set rest
      return ""

/-- A name of an object's entry, up to its colon. -/
def entryName (care : Care) : Reader String := do
  if (← next) ≠ '"' then fail .malformed
  advance
  stringBody care

/-- Passes over the colon between a name and its value. -/
def colon : Reader Unit := do
  if (← next) ≠ ':' then fail .malformed
  advance

/-- Whether another part follows in brackets, passing over the comma before it.

`first` says that no part has been read; the closing bracket stays unread. -/
def another (closing : Char) (first : Bool) : Reader Bool := do
  let c ← next
  if c = closing then return false
  else if first then return true
  else if c ≠ ',' then fail .malformed
  else
    -- A comma promises another part.
    advance
    if (← next) = closing then fail .malformed
    return true

/-- The items up to the closing bracket; `fuel` bounds their number. -/
def items {α : Type} (item : Reader α) : (fuel : Nat) → (first : Bool) → Reader (List α)
  | 0, _ => fail .malformed
  | fuel + 1, first => do
    if ← another ']' first then
      let head ← item
      return head :: (← items item fuel false)
    else
      advance
      return []

/-- Adds the entries up to the closing brace; `fuel` bounds their number. -/
def entries {α : Type} (name : Reader String) (value : Reader α) :
    (fuel : Nat) → (first : Bool) → List (String × α) → Reader (List (String × α))
  | 0, _, _ => fail .malformed
  | fuel + 1, first, held => do
    if ← another '\x7d' first then
      let key ← name
      colon
      let read ← value
      -- A repeated name keeps its place and takes the last value.
      entries name value fuel false (putEntry key read held)
    else
      advance
      return held

/-- A value that starts with the given character and has no parts. -/
def scalar (care : Care) (c : Char) : Reader Json := do
  if c = 'n' then
    expect "null".toList
    return .null
  else if c = 't' then
    expect "true".toList
    return .bool true
  else if c = 'f' then
    expect "false".toList
    return .bool false
  else if c = '-' ∨ c.isDigit then return .number (← signedNumber care)
  else if c = '"' then
    advance
    return .string (← stringBody care)
  else fail .malformed

/-- A value with at most `depth` brackets inside each other. -/
def value (care : Care) : (depth : Nat) → Reader Json
  | 0 => do scalar care (← next)
  | inner + 1 => do
    let c ← next
    if c = '[' then
      advance
      return .array (← items (value care inner) ((← get).length + 1) true)
    else if c = '\x7b' then
      advance
      return .object (← entries (entryName care) (value care inner) ((← get).length + 1) true [])
    else scalar care c

/-- The number of brackets inside each other that a wanted text may have. -/
def deepest : Nat := 127

/-- Passes over a value of any depth. -/
def skip : Reader Unit := do
  let _ ← value .skimmed (← get).length
  return ()

/-- Reads a whole text, of which only blanks may be left. -/
def document {α : Type} (read : Reader α) (text : String) : Except Fault α :=
  match (do let result ← read; skipBlanks; return result : Reader α).run text.toList with
  | .error fault => .error fault
  | .ok (result, []) => .ok result
  | .ok (_, _ :: _) => .error .malformed

/-- The value that a text is. -/
def ofText (text : String) : Except Fault Json := document (value .exact deepest) text

/-- A string where nothing else is wanted; a scalar of another shape is read before it is refused. -/
def wantedString : Reader String := do
  let c ← next
  if c = '"' then
    advance
    stringBody .exact
  else if c = '[' ∨ c = '\x7b' then fail .mismatched
  else
    let _ ← value .exact 0
    fail .mismatched

/-- A truth value where nothing else is wanted. -/
def wantedBool : Reader Bool := do
  let c ← next
  if c = '[' ∨ c = '\x7b' then fail .mismatched
  else match ← value .exact 0 with
    | .bool held => return held
    | _ => fail .mismatched

/-- Refuses a value that is neither a list nor an object, after reading it. -/
def refuseScalar {α : Type} : Reader α := do
  let _ ← value .exact 0
  fail .mismatched

/-- An object whose values are all strings, at most `depth` brackets deep. -/
def wantedStrings : (depth : Nat) → Reader (List (String × String))
  | depth => do
    let c ← next
    if c = '[' then fail .mismatched
    else if c = '\x7b' then
      match depth with
      | 0 => fail .malformed
      | _ + 1 =>
        advance
        entries (entryName .exact) wantedString ((← get).length + 1) true []
    else refuseScalar

/-- One field of a record that is built up in `σ`. -/
structure Slot (σ : Type) where
  /-- The field's name. -/
  name : String
  /-- Whether a record without the field is refused. -/
  required : Bool
  /-- Reads the field's value into the record, with room for `depth` brackets. -/
  fill : (depth : Nat) → σ → Reader σ

/-- The fields of a record given as a list in order; fields at the end may be left out. -/
def slotsInOrder {σ : Type} (depth : Nat) : List (Slot σ) → (first : Bool) → σ → Reader σ
  | [], _, record => return record
  | slot :: rest, first, record => do
    -- Once the list has ended, each field that is left has to have a default.
    if ← another ']' first then
      slotsInOrder depth rest false (← slot.fill depth record)
    else if slot.required then fail .mismatched
    else slotsInOrder depth rest first record

/-- The fields of a record given by name; `seen` lists those read before. -/
def slotsByName {σ : Type} (depth : Nat) (slots : List (Slot σ)) :
    (fuel : Nat) → (first : Bool) → (seen : List String) → σ → Reader σ
  | 0, _, _, _ => fail .malformed
  | fuel + 1, first, seen, record => do
    if ← another '\x7d' first then
      let key ← entryName .exact
      match slots.find? (fun slot => slot.name == key) with
      | none =>
        -- Unknown fields are passed over, however deep they are.
        colon
        skip
        slotsByName depth slots fuel false seen record
      | some slot =>
        -- A repeated field is refused as soon as its name has been read.
        if key ∈ seen then fail .mismatched
        colon
        slotsByName depth slots fuel false (key :: seen) (← slot.fill depth record)
    else if slots.any (fun slot => slot.required && !seen.contains slot.name) then fail .mismatched
    else return record

/-- A record given as an object or as a list, starting from its default. -/
def record {σ : Type} (slots : List (Slot σ)) (start : σ) : (depth : Nat) → Reader σ
  | depth => do
    let c ← next
    if c = '[' then
      match depth with
      | 0 => fail .malformed
      | inner + 1 =>
        advance
        let read ← slotsInOrder inner slots true start
        -- The list has no room for more than the fields.
        if (← next) ≠ ']' then fail .malformed
        advance
        return read
    else if c = '\x7b' then
      match depth with
      | 0 => fail .malformed
      | inner + 1 =>
        advance
        let read ← slotsByName inner slots ((← get).length + 1) true [] start
        advance
        return read
    else refuseScalar

end Reader

end Topics.Json
