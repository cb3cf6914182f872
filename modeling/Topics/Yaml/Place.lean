/-! Places in a YAML text, and what the characters behind a place begin with. -/

namespace Topics.Yaml

/-- Why a text is refused. -/
inductive Fault where
  /-- A character that no text may have. -/
  | forbiddenCharacter
  /-- A tab where indentation is made of blanks. -/
  | tabIndentation
  /-- A quoted scalar without its closing quote. -/
  | unclosedQuote
  /-- A backslash that escapes nothing. -/
  | unknownEscape
  /-- A colon where a flow scalar cannot have one. -/
  | unexpectedColon
  /-- A key without its colon. -/
  | missingColon
  /-- An entry, key or value where none can start. -/
  | misplacedIndicator
  /-- A character that starts no token. -/
  | unexpectedCharacter
  /-- An anchor or alias without a name, or with more than a name. -/
  | malformedAnchor
  /-- A tag without a name, or with a character that no tag may have. -/
  | malformedTag
  /-- A tag whose handle no directive gives. -/
  | unknownHandle
  /-- A directive that is unknown, repeated or incomplete. -/
  | malformedDirective
  /-- A block scalar that is said to stand no deeper than its parent. -/
  | noIndentation
  /-- A line that goes on where only a comment can follow. -/
  | trailingText
  /-- An alias of a node that has not begun before it. -/
  | unknownAnchor
  /-- A token that does not belong where it stands. -/
  | unexpectedToken
  /-- A value of another shape than the wanted one. -/
  | unexpectedShape
  deriving DecidableEq, Repr

/-- The text of a fault. -/
def Fault.message : Fault → String
  | forbiddenCharacter => "control characters are not allowed"
  | tabIndentation => "found a tab character that violates indentation"
  | unclosedQuote => "found unexpected end of a quoted scalar"
  | unknownEscape => "found unknown escape character"
  | unexpectedColon => "found unexpected ':'"
  | missingColon => "could not find expected ':'"
  | misplacedIndicator => "mapping values are not allowed in this context"
  | unexpectedCharacter => "found character that cannot start any token"
  | malformedAnchor => "did not find expected alphabetic or numeric character"
  | malformedTag => "did not find expected tag URI"
  | unknownHandle => "found undefined tag handle"
  | malformedDirective => "found unknown directive name"
  | noIndentation => "found an indentation indicator equal to 0"
  | trailingText => "did not find expected comment or line break"
  | unknownAnchor => "unknown anchor"
  | unexpectedToken => "did not find expected node content"
  | unexpectedShape => "invalid type"

/-- A place in a text. -/
structure Place where
  /-- The number of bytes passed. -/
  index : Nat
  /-- The number of line breaks passed. -/
  line : Nat
  /-- The number of characters passed on this line. -/
  column : Nat
  deriving DecidableEq, Repr

/-- Whether a character ends a line. -/
def isBreak (c : Char) : Bool :=
  c == '\n' || c == '\r' || c == '\u0085' || c == '\u2028' || c == '\u2029'

/-- Whether a character is a blank inside a line. -/
def isSpace (c : Char) : Bool := c == ' ' || c == '\t'

/-- Whether nothing but a blank, a line break or the end stands at the front. -/
def atGap : List Char → Bool
  | [] => true
  | c :: _ => isSpace c || isBreak c

/-- The line break that a scalar keeps for a character that ends a line. -/
def keptBreak (c : Char) : Char := if c == '\u2028' || c == '\u2029' then c else '\n'

/-- Whether three marks that begin or end a document stand at the front. -/
def atMark (mark : Char) : List Char → Bool
  | a :: b :: c :: rest => a == mark && b == mark && c == mark && atGap rest
  | _ => false

/-- Whether a document begins or ends at the front of a line. -/
def atDocumentMark (column : Nat) (rest : List Char) : Bool :=
  column == 0 && (atMark '-' rest || atMark '.' rest)

namespace Place

/-- The start of a text. -/
def start : Place := ⟨0, 0, 0⟩

/-- Past the given number of characters of one byte, none of which ends a line. -/
def skip (place : Place) (count : Nat) : Place :=
  ⟨place.index + count, place.line, place.column + count⟩

/-- Past a character that ends no line. -/
def advance (place : Place) (c : Char) : Place :=
  -- A character takes one column, however many bytes it has.
  ⟨place.index + c.utf8Size, place.line, place.column + 1⟩

/-- At the start of the next line, past a break of the given number of bytes. -/
def newLine (place : Place) (width : Nat) : Place := ⟨place.index + width, place.line + 1, 0⟩

end Place

end Topics.Yaml
