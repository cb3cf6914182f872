import Topics.Yaml.Place
import Topics.Hex

/-! Scalars run over line breaks, which fold into blanks. -/

namespace Topics.Yaml

/-- How a scalar is written. -/
inductive Style where
  /-- Without any mark. -/
  | plain
  /-- Between quotes. -/
  | quoted
  /-- On lines of its own, which are kept. -/
  | literal
  /-- On lines of its own, which fold into blanks. -/
  | folded
  deriving DecidableEq, Repr

/-- The blanks and line breaks since the last visible character of a scalar. -/
structure Gap where
  /-- The blanks before the first line break, last one first. -/
  blanks : List Char := []
  /-- Whether the line has ended. -/
  lineEnded : Bool := false
  /-- The first line break, unless it is escaped. -/
  first : Option Char := none
  /-- The line breaks behind it, last one first. -/
  more : List Char := []

namespace Gap

/-- Adds a blank, which counts only before a line break. -/
def addBlank (gap : Gap) (c : Char) : Gap :=
  if gap.lineEnded then gap else { gap with blanks := c :: gap.blanks }

/-- Adds a line break. -/
def addBreak (gap : Gap) (c : Char) : Gap :=
  if gap.lineEnded then { gap with more := keptBreak c :: gap.more }
  else { gap with lineEnded := true, first := some (keptBreak c) }

/-- The gap behind an escaped line break. -/
def escaped : Gap := { lineEnded := true }

/-- What a scalar keeps of a gap: a single break becomes a blank, and of several the first goes. -/
def folded (gap : Gap) : List Char :=
  if gap.lineEnded then
    match gap.first with
    | none => gap.more.reverse
    | some '\n' => if gap.more.isEmpty then [' '] else gap.more.reverse
    | some c => c :: gap.more.reverse
  else gap.blanks.reverse

end Gap

/-- A scalar read so far. -/
structure Reading where
  /-- Its text, last character first. -/
  text : List Char := []
  /-- The gap behind the text. -/
  gap : Gap := {}

namespace Reading

/-- Adds a visible character behind the gap. -/
def push (reading : Reading) (c : Char) : Reading :=
  ⟨c :: (reading.gap.folded.reverse ++ reading.text), {}⟩

/-- The gap turned into text. -/
def settle (reading : Reading) : Reading :=
  ⟨reading.gap.folded.reverse ++ reading.text, {}⟩

/-- The text of the scalar. -/
def result (reading : Reading) : String := String.ofList reading.text.reverse

end Reading

/-- Whether a character ends a plain scalar inside flow brackets. -/
def isFlowIndicator (c : Char) : Bool :=
  c == ',' || c == '[' || c == ']' || c == '{' || c == '}'

/-- Whether a plain scalar can go on with the given characters after a gap. -/
def resumesPlain (flow : Bool) (indent : Int) (place : Place) (rest : List Char) : Bool :=
  (flow || indent ≤ place.column) && !atDocumentMark place.column rest && rest.head? != some '#'

/-- What a scalar reads: its text so far, the characters behind it, and their place. -/
abbrev Scanned := Reading × List Char × Place

/-- Reads a plain scalar; `gapped` says that blanks or breaks stand right before the place. -/
def plainScalar (flow : Bool) (indent : Int) :
    (rest : List Char) → Place → (gapped : Bool) → Reading → Except Fault Scanned
  | [], place, _, reading => .ok (reading, [], place)
  | '\r' :: '\n' :: rest, place, _, reading =>
    plainScalar flow indent rest (place.newLine 2) true
      { reading with gap := reading.gap.addBreak '\n' }
  | c :: rest, place, gapped, reading =>
    if isBreak c then
      plainScalar flow indent rest (place.newLine c.utf8Size) true
        { reading with gap := reading.gap.addBreak c }
    else if isSpace c then
      -- Behind a line break, blanks up to the indentation are no place for a tab.
      if reading.gap.lineEnded ∧ (place.column : Int) < indent ∧ c = '\t' then
        .error .tabIndentation
      else
        plainScalar flow indent rest (place.advance c) true
          { reading with gap := reading.gap.addBlank c }
    else if gapped ∧ ¬ resumesPlain flow indent place (c :: rest) then
      .ok (reading, c :: rest, place)
    else if flow ∧ c = ':' ∧ rest.head?.any (fun next => isFlowIndicator next || next == '?') then
      .error .unexpectedColon
    else if (c = ':' ∧ atGap rest) ∨ (flow ∧ isFlowIndicator c) then
      -- The gap in front of the end belongs to no scalar.
      .ok (reading, c :: rest, place)
    else plainScalar flow indent rest (place.advance c) false (reading.push c)

/-- The character that a short escape stands for. -/
def unescape? (c : Char) : Option Char :=
  match c with
  | '0' => some '\x00'
  | 'a' => some '\x07'
  | 'b' => some '\x08'
  | 't' => some '\t'
  | '\t' => some '\t'
  | 'n' => some '\n'
  | 'v' => some '\x0b'
  | 'f' => some '\x0c'
  | 'r' => some '\r'
  | 'e' => some '\x1b'
  | ' ' => some ' '
  | '"' => some '"'
  | '/' => some '/'
  | '\\' => some '\\'
  | 'N' => some '\u0085'
  | '_' => some '\u00a0'
  | 'L' => some '\u2028'
  | 'P' => some '\u2029'
  | _ => none

/-- The number of digits behind an escape that gives a code point. -/
def codeDigits? (c : Char) : Option Nat :=
  match c with
  | 'x' => some 2
  | 'u' => some 4
  | 'U' => some 8
  | _ => none

/-- What the characters of a quoted scalar are read as. -/
inductive Expectation where
  /-- Text, blanks and breaks. -/
  | text
  /-- What follows a backslash. -/
  | escape
  /-- The digits that are left of a code point, with its value so far. -/
  | code (left value : Nat)

/-- Reads a scalar in double quotes from behind its opening quote. -/
def doubleQuoted :
    (rest : List Char) → Place → Expectation → Reading → Except Fault Scanned
  | [], _, _, _ => .error .unclosedQuote
  | c :: rest, place, .code left value, reading =>
    match Hex.digitValue? c with
    | none => .error .unknownEscape
    | some digit =>
      let value := value * 16 + digit
      -- The last digit completes the code point, which has to be a character's.
      if left = 1 then
        if value.isValidChar then
          doubleQuoted rest (place.advance c) .text (reading.push (Char.ofNat value))
        else .error .unknownEscape
      else doubleQuoted rest (place.advance c) (.code (left - 1) value) reading
  -- An escaped line break joins two lines, and the blanks before it stay.
  | '\r' :: '\n' :: rest, place, .escape, reading =>
    doubleQuoted rest (place.newLine 2) .text { reading.settle with gap := .escaped }
  | c :: rest, place, .escape, reading =>
    if isBreak c then
      doubleQuoted rest (place.newLine c.utf8Size) .text { reading.settle with gap := .escaped }
    else match codeDigits? c, unescape? c with
      | some count, _ => doubleQuoted rest (place.advance c) (.code count 0) reading
      | none, some plain => doubleQuoted rest (place.advance c) .text (reading.push plain)
      | none, none => .error .unknownEscape
  | '\r' :: '\n' :: rest, place, _, reading =>
    doubleQuoted rest (place.newLine 2) .text { reading with gap := reading.gap.addBreak '\n' }
  | c :: rest, place, _, reading =>
    if isBreak c then
      doubleQuoted rest (place.newLine c.utf8Size) .text { reading with gap := reading.gap.addBreak c }
    else if isSpace c then
      doubleQuoted rest (place.advance c) .text { reading with gap := reading.gap.addBlank c }
    else if atDocumentMark place.column (c :: rest) then .error .unclosedQuote
    else if c = '"' then .ok (reading.settle, rest, place.advance c)
    else if c = '\\' then doubleQuoted rest (place.advance c) .escape reading.settle
    else doubleQuoted rest (place.advance c) .text (reading.push c)

/-- Reads a scalar in single quotes from behind its opening quote; a quote written twice is one. -/
def singleQuoted : (rest : List Char) → Place → Reading → Except Fault Scanned
  | [], _, _ => .error .unclosedQuote
  | '\r' :: '\n' :: rest, place, reading =>
    singleQuoted rest (place.newLine 2) { reading with gap := reading.gap.addBreak '\n' }
  | '\'' :: '\'' :: rest, place, reading =>
    singleQuoted rest (place.skip 2) (reading.push '\'')
  | c :: rest, place, reading =>
    if isBreak c then
      singleQuoted rest (place.newLine c.utf8Size) { reading with gap := reading.gap.addBreak c }
    else if isSpace c then
      singleQuoted rest (place.advance c) { reading with gap := reading.gap.addBlank c }
    else if atDocumentMark place.column (c :: rest) then .error .unclosedQuote
    else if c = '\'' then .ok (reading.settle, rest, place.advance c)
    else singleQuoted rest (place.advance c) (reading.push c)

end Topics.Yaml
