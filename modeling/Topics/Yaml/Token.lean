import Topics.Yaml.Tag

/-! The tokens of a YAML text, with the brackets that its indentation implies. -/

namespace Topics.Yaml

/-- A token of a text. -/
inductive Token where
  | documentStart
  | documentEnd
  | blockSequence
  | blockMapping
  | blockEnd
  | flowSequence
  | flowSequenceEnd
  | flowMapping
  | flowMappingEnd
  | blockEntry
  | flowEntry
  | key
  | value
  | scalar (text : String) (style : Style)
  | anchor (name : String)
  | alias (name : String)
  | tag (tag : WrittenTag)
  | directive (directive : Directive)
  deriving DecidableEq, Repr

/-- A token that becomes a key if a colon follows it on the same line. -/
structure Candidate where
  /-- The number of tokens before it. -/
  order : Nat
  /-- Where it starts. -/
  place : Place
  /-- Whether the text is refused if no colon follows. -/
  required : Bool

/-- A text read up to a place. -/
structure Scan where
  /-- The characters from the place on. -/
  rest : List Char
  /-- The place. -/
  here : Place := .start
  /-- The tokens so far. -/
  tokens : Array Token := #[]
  /-- The column of the innermost block collection, or -1 outside of all. -/
  indent : Int := -1
  /-- The columns of the block collections around it, innermost first. -/
  outer : List Int := []
  /-- Whether a key may start here. -/
  keyAllowed : Bool := true
  /-- The candidate of the innermost flow collection, or of the block context. -/
  candidate : Option Candidate := none
  /-- The candidates around it; there is one for each open flow collection. -/
  enclosing : List (Option Candidate) := []

namespace Scan

/-- Whether the place lies inside flow brackets. -/
def inFlow (scan : Scan) : Bool := !scan.enclosing.isEmpty

/-- Adds a token. -/
def push (scan : Scan) (token : Token) : Scan := { scan with tokens := scan.tokens.push token }

/-- Puts a token behind the first `order` ones. -/
def insert (scan : Scan) (order : Nat) (token : Token) : Scan :=
  { scan with tokens := scan.tokens.insertIdxIfInBounds order token }

/-- Passes the given number of characters of one byte, none of which ends a line. -/
def skip (scan : Scan) (count : Nat) : Scan :=
  { scan with rest := scan.rest.drop count, here := scan.here.skip count }

/-- Goes on with the given end of the characters left, past characters as `skip` passes them. -/
def skipTo (scan : Scan) (rest : List Char) : Scan :=
  { scan with rest, here := scan.here.skip (scan.rest.length - rest.length) }

/-- Whether a candidate lies too far behind to become a key. -/
def isStale (scan : Scan) (candidate : Candidate) : Bool :=
  -- A key stands on one line with its colon, at most 1024 bytes before it.
  candidate.place.line < scan.here.line || candidate.place.index + 1024 < scan.here.index

/-- Drops a candidate, which must not be a required key. -/
def drop (candidate : Option Candidate) : Except Fault (Option Candidate) :=
  match candidate with
  | some held => if held.required then .error .missingColon else .ok none
  | none => .ok none

/-- Drops a candidate that lies too far behind. -/
def refresh (scan : Scan) (candidate : Option Candidate) : Except Fault (Option Candidate) :=
  match candidate with
  | some held => if scan.isStale held then drop candidate else .ok candidate
  | none => .ok none

/-- Drops all candidates that lie too far behind. -/
def refreshAll (scan : Scan) : Except Fault Scan := do
  let candidate ← scan.refresh scan.candidate
  let enclosing ← scan.enclosing.mapM scan.refresh
  return { scan with candidate, enclosing }

/-- Drops the innermost candidate. -/
def dropCandidate (scan : Scan) : Except Fault Scan := do
  return { scan with candidate := ← drop scan.candidate }

/-- Makes the token that starts here a candidate where a key may start. -/
def noteCandidate (scan : Scan) : Except Fault Scan := do
  if scan.keyAllowed then
    let _ ← drop scan.candidate
    -- At the column of its mapping nothing else than a key can stand.
    let required := !scan.inFlow && scan.indent == scan.here.column
    return { scan with candidate := some ⟨scan.tokens.size, scan.here, required⟩ }
  else return scan

/-- Opens a block collection at a column that lies deeper than the innermost one. -/
def indentTo (scan : Scan) (column : Nat) (order : Nat) (token : Token) : Scan :=
  if scan.inFlow ∨ (column : Int) ≤ scan.indent then scan
  else { scan.insert order token with indent := column, outer := scan.indent :: scan.outer }

/-- Closes the block collections that lie deeper than a column. -/
def closeBlocks (column : Int) (indent : Int) (tokens : Array Token) :
    List Int → Int × List Int × Array Token
  | [] => (indent, [], tokens)
  | before :: outer =>
    if column < indent then closeBlocks column before (tokens.push .blockEnd) outer
    else (indent, before :: outer, tokens)

/-- Closes the block collections that lie deeper than a column, unless the place is in flow. -/
def unindentTo (scan : Scan) (column : Int) : Scan :=
  if scan.inFlow then scan
  else
    let (indent, outer, tokens) := closeBlocks column scan.indent scan.tokens scan.outer
    { scan with indent, outer, tokens }

/-- Passes blanks, comments and line breaks; a key may start on a new line of a block.

A byte order mark at the start of a line is passed too, and takes a column there. -/
def passGap (flow : Bool) :
    (rest : List Char) → Place → (keyAllowed comment : Bool) → List Char × Place × Bool
  | [], place, keyAllowed, _ => ([], place, keyAllowed)
  | '\r' :: '\n' :: rest, place, keyAllowed, _ =>
    passGap flow rest (place.newLine 2) (keyAllowed || !flow) false
  | c :: rest, place, keyAllowed, comment =>
    if isBreak c then passGap flow rest (place.newLine c.utf8Size) (keyAllowed || !flow) false
    -- A tab could be taken for indentation where a key may start.
    else if comment ∨ c = ' ' ∨ (c = '\t' ∧ (flow ∨ ¬ keyAllowed)) ∨
        (c = '\ufeff' ∧ place.column = 0) then
      passGap flow rest (place.advance c) keyAllowed comment
    else if c = '#' then passGap flow rest (place.advance c) keyAllowed true
    else (c :: rest, place, keyAllowed)

/-- Passes on to the next token and closes what its column closes. -/
def toToken (scan : Scan) : Except Fault Scan := do
  let (rest, here, keyAllowed) := passGap scan.inFlow scan.rest scan.here scan.keyAllowed false
  let scan ← { scan with rest, here, keyAllowed }.refreshAll
  return scan.unindentTo here.column

/-- Reads a mark that begins or ends a document. -/
def documentMark (scan : Scan) (token : Token) : Except Fault Scan := do
  let scan ← (scan.unindentTo (-1)).dropCandidate
  return { (scan.push token).skip 3 with keyAllowed := false }

/-- Reads the opening bracket of a flow collection. -/
def openFlow (scan : Scan) (token : Token) : Except Fault Scan := do
  let scan ← scan.noteCandidate
  return { (scan.push token).skip 1 with
    keyAllowed := true, candidate := none, enclosing := scan.candidate :: scan.enclosing }

/-- Reads the closing bracket of a flow collection. -/
def closeFlow (scan : Scan) (token : Token) : Except Fault Scan := do
  let scan ← scan.dropCandidate
  let scan := { (scan.push token).skip 1 with keyAllowed := false }
  match scan.enclosing with
  | [] => return scan
  | candidate :: enclosing => return { scan with candidate, enclosing }

/-- Reads the comma of a flow collection. -/
def flowComma (scan : Scan) : Except Fault Scan := do
  let scan ← scan.dropCandidate
  return { (scan.push .flowEntry).skip 1 with keyAllowed := true }

/-- Reads the dash of a block sequence. -/
def dash (scan : Scan) : Except Fault Scan := do
  if !scan.inFlow && !scan.keyAllowed then throw .misplacedIndicator
  let scan := scan.indentTo scan.here.column scan.tokens.size .blockSequence
  let scan ← scan.dropCandidate
  return { (scan.push .blockEntry).skip 1 with keyAllowed := true }

/-- Reads the question mark before a key. -/
def question (scan : Scan) : Except Fault Scan := do
  if !scan.inFlow && !scan.keyAllowed then throw .misplacedIndicator
  let scan := scan.indentTo scan.here.column scan.tokens.size .blockMapping
  let scan ← scan.dropCandidate
  return { (scan.push .key).skip 1 with keyAllowed := !scan.inFlow }

/-- Reads the colon before a value; the candidate becomes its key. -/
def colon (scan : Scan) : Except Fault Scan := do
  match scan.candidate with
  | some key =>
    -- The mapping that the key opens comes before the key, and both before the scalar.
    let scan := (scan.insert key.order .key).indentTo key.place.column key.order .blockMapping
    return { (scan.push .value).skip 1 with candidate := none, keyAllowed := false }
  | none =>
    if !scan.inFlow && !scan.keyAllowed then throw .misplacedIndicator
    let scan := scan.indentTo scan.here.column scan.tokens.size .blockMapping
    return { (scan.push .value).skip 1 with keyAllowed := !scan.inFlow }

/-- Reads a scalar between quotes. -/
def quoted (scan : Scan) (double : Bool) : Except Fault Scan := do
  let scan ← scan.noteCandidate
  let inside := scan.skip 1
  let (reading, rest, here) ←
    if double then doubleQuoted inside.rest inside.here .text {}
    else singleQuoted inside.rest inside.here {}
  return { scan.push (.scalar reading.result .quoted) with rest, here, keyAllowed := false }

/-- Reads a scalar without quotes; a key may start behind it if it ended a line. -/
def plain (scan : Scan) : Except Fault Scan := do
  let scan ← scan.noteCandidate
  let (reading, rest, here) ←
    plainScalar scan.inFlow (scan.indent + 1) scan.rest scan.here false {}
  return { scan.push (.scalar reading.result .plain) with
    rest, here, keyAllowed := reading.gap.lineEnded }

/-- Reads a scalar on lines of its own; a key may start behind it. -/
def block (scan : Scan) (folds : Bool) : Except Fault Scan := do
  let scan ← scan.dropCandidate
  let inside := scan.skip 1
  let (text, rest, here) ← blockScalar folds scan.indent inside.rest inside.here
  return { scan.push (.scalar text (if folds then .folded else .literal)) with
    rest, here, keyAllowed := true }

/-- Reads an anchor or alias from behind its mark. -/
def name (scan : Scan) (token : String → Token) : Except Fault Scan := do
  let scan ← scan.noteCandidate
  let (name, rest) ← readName scan.rest.tail
  return { (scan.push (token name)).skipTo rest with keyAllowed := false }

/-- Reads a tag. -/
def tag (scan : Scan) : Except Fault Scan := do
  let scan ← scan.noteCandidate
  let (tag, rest) ← WrittenTag.read scan.rest.tail
  -- In flow brackets a comma can follow a tag directly, and else only a gap.
  if !atGap rest && !(scan.inFlow && rest.head? == some ',') then throw .malformedTag
  return { (scan.push (.tag tag)).skipTo rest with keyAllowed := false }

/-- Reads a directive with the rest of its line. -/
def directive (scan : Scan) : Except Fault Scan := do
  let scan ← (scan.unindentTo (-1)).dropCandidate
  let (directive, behind) ← Directive.read scan.rest.tail
  let (rest, here) ← endLine behind scan.here
  return { scan.push (.directive directive) with rest, here, keyAllowed := false }

/-- The characters that start no plain scalar. -/
def isIndicator (c : Char) : Bool := "-?:,[]\x7b\x7d#&*!|>'\"%@`".toList.contains c

/-- Whether a plain scalar can start with a character before the given ones. -/
def startsPlain (flow : Bool) (c : Char) (rest : List Char) : Bool :=
  (!isIndicator c && !isSpace c) || (c == '-' && !rest.head?.any isSpace) ||
    (!flow && (c == '?' || c == ':') && !atGap rest)

/-- Reads the token that starts with a character before the given ones. -/
def readToken (scan : Scan) (c : Char) (rest : List Char) : Except Fault Scan :=
  let column := scan.here.column
  let flow := scan.inFlow
  if column = 0 ∧ c = '%' then scan.directive
  else if column = 0 ∧ atMark '-' (c :: rest) then scan.documentMark .documentStart
  else if column = 0 ∧ atMark '.' (c :: rest) then scan.documentMark .documentEnd
  else if c = '[' then scan.openFlow .flowSequence
  else if c = '{' then scan.openFlow .flowMapping
  else if c = ']' then scan.closeFlow .flowSequenceEnd
  else if c = '}' then scan.closeFlow .flowMappingEnd
  else if c = ',' then scan.flowComma
  else if c = '-' ∧ atGap rest then scan.dash
  else if c = '?' ∧ (flow ∨ atGap rest) then scan.question
  else if c = ':' ∧ (flow ∨ atGap rest) then scan.colon
  else if c = '*' then scan.name .alias
  else if c = '&' then scan.name .anchor
  else if c = '!' then scan.tag
  else if c = '|' ∧ ¬ flow then scan.block false
  else if c = '>' ∧ ¬ flow then scan.block true
  else if c = '"' then scan.quoted true
  else if c = '\'' then scan.quoted false
  else if startsPlain flow c rest then scan.plain
  else .error .unexpectedCharacter

/-- Reads tokens up to the end of the text; `fuel` bounds their number. -/
def run : (fuel : Nat) → Scan → Except Fault (List Token)
  | 0, _ => .error .unexpectedCharacter
  | fuel + 1, scan => do
    let scan ← scan.toToken
    match scan.rest with
    | [] =>
      let scan ← (scan.unindentTo (-1)).dropCandidate
      return scan.tokens.toList
    | c :: rest => run fuel (← scan.readToken c rest)

end Scan

/-- Whether a text may have a character. -/
def isAllowed (c : Char) : Bool :=
  c == '\t' || c == '\n' || c == '\r' || (' ' ≤ c && c ≤ '~') || c == '\u0085' ||
    ('\u00a0' ≤ c && c != '\ufffe' && c != '\uffff')

/-- The tokens of a text. -/
def Token.scan (text : String) : Except Fault (List Token) :=
  let body := text.toList
  if body.all isAllowed then ({ rest := body } : Scan).run (body.length + 1)
  else .error .forbiddenCharacter

end Topics.Yaml
