import Topics.Yaml.Scalar

/-! Block scalars stand on lines of their own, below a line with their indicators. -/

namespace Topics.Yaml

/-- What becomes of the line breaks at the end of a block scalar. -/
inductive Chomping where
  /-- None stays. -/
  | strip
  /-- The first one stays. -/
  | clip
  /-- All stay. -/
  | keep
  deriving DecidableEq, Repr

/-- The indicators of a block scalar. -/
structure Header where
  /-- What becomes of the last line breaks. -/
  chomping : Chomping := .clip
  /-- How much deeper than its parent the scalar stands, where that is said. -/
  increment : Option Nat := none

namespace Header

/-- The chomping that a character asks for. -/
def chomping? (c : Char) : Option Chomping :=
  if c = '+' then some .keep else if c = '-' then some .strip else none

/-- Reads one chomping and one increment, in either order, up to a character that is neither. -/
def read : List Char → Header → Except Fault (Header × List Char)
  | [], header => .ok (header, [])
  | c :: rest, header =>
    match chomping? c, header.chomping, header.increment with
    | some wanted, .clip, _ => read rest { header with chomping := wanted }
    | some _, _, _ => .ok (header, c :: rest)
    | none, _, none =>
      -- An indentation is at least one.
      if c = '0' then .error .noIndentation
      else if c.isDigit then read rest { header with increment := some (c.toNat - 48) }
      else .ok (header, c :: rest)
    | none, _, some _ => .ok (header, c :: rest)

end Header

/-- Where reading stands: the characters left, and their place. -/
abbrev Spot := List Char × Place

/-- Passes the rest of a line that holds nothing but blanks and a comment. -/
def endLine (rest : List Char) (place : Place) : Except Fault Spot :=
  -- No blank is needed before the comment here.
  let visible := rest.dropWhile isSpace
  let ending := if visible.head? = some '#' then visible.dropWhile (! isBreak ·) else visible
  match ending with
  | [] => .ok ([], place.skip (rest.length))
  | '\r' :: '\n' :: next => .ok (next, place.newLine 2)
  | c :: next => if isBreak c then .ok (next, place.newLine c.utf8Size) else .error .trailingText

/-- What stands between two lines of a block scalar. -/
structure Margin where
  /-- The characters from the next line's text on. -/
  rest : List Char
  /-- Where they start. -/
  place : Place
  /-- The line breaks of blank lines, last one first. -/
  breaks : List Char
  /-- The greatest column that blanks lead to. -/
  deepest : Nat

/-- Passes blank lines and indentation; `indent` is zero while the scalar's column is unknown. -/
def passMargin (indent : Nat) :
    (rest : List Char) → Place → (breaks : List Char) → (deepest : Nat) → Except Fault Margin
  | [], place, breaks, deepest => .ok ⟨[], place, breaks, max deepest place.column⟩
  | '\r' :: '\n' :: rest, place, breaks, deepest =>
    passMargin indent rest (place.newLine 2) ('\n' :: breaks) (max deepest place.column)
  | c :: rest, place, breaks, deepest =>
    let margin := indent = 0 ∨ place.column < indent
    if margin ∧ c = ' ' then passMargin indent rest (place.advance c) breaks deepest
    else if margin ∧ c = '\t' then .error .tabIndentation
    else if isBreak c then
      passMargin indent rest (place.newLine c.utf8Size) (keptBreak c :: breaks)
        (max deepest place.column)
    else .ok ⟨c :: rest, place, breaks, max deepest place.column⟩

/-- A block scalar read so far. -/
structure BlockReading where
  /-- Its text, last character first. -/
  text : List Char := []
  /-- The break behind the last line, if it has one. -/
  lineBreak : Option Char := none
  /-- The breaks of the blank lines behind it, last one first. -/
  breaks : List Char := []
  /-- Whether the last line starts with a blank. -/
  indented : Bool := false

namespace BlockReading

/-- Adds a line behind the breaks before it. -/
def addLine (reading : BlockReading) (folds : Bool) (line : List Char) : BlockReading :=
  let indented := line.head?.any isSpace
  -- Lines fold together unless one of the two is indented further than the scalar.
  let joined :=
    if folds ∧ reading.lineBreak = some '\n' ∧ ¬ reading.indented ∧ ¬ indented then
      if reading.breaks.isEmpty then [' '] else []
    else reading.lineBreak.toList
  { text := line.reverse ++ (reading.breaks ++ (joined ++ reading.text)), indented }

/-- The text of the scalar after its last line breaks are chomped. -/
def result (reading : BlockReading) (chomping : Chomping) : String :=
  let ending :=
    match chomping with
    | .strip => []
    | .clip => reading.lineBreak.toList
    | .keep => reading.breaks ++ reading.lineBreak.toList
  String.ofList (ending ++ reading.text).reverse

end BlockReading

/-- Reads the lines that start at the scalar's column; `fuel` bounds their number. -/
def blockLines (folds : Bool) (indent : Nat) :
    (fuel : Nat) → Spot → BlockReading → Except Fault (BlockReading × Spot)
  | 0, spot, reading => .ok (reading, spot)
  | fuel + 1, (rest, place), reading =>
    if rest = [] ∨ place.column ≠ indent then .ok (reading, (rest, place))
    else do
      let (line, behind) := rest.span (! isBreak ·)
      let reading := reading.addLine folds line
      let ending := line.foldl Place.advance place
      -- The break of a line is kept apart until the next line shows whether it folds.
      let (lineBreak, next, below) :=
        match behind with
        | [] => (none, [], ending)
        | '\r' :: '\n' :: next => (some '\n', next, ending.newLine 2)
        | c :: next => (some (keptBreak c), next, ending.newLine c.utf8Size)
      let margin ← passMargin indent next below [] 0
      blockLines folds indent fuel (margin.rest, margin.place)
        { reading with lineBreak, breaks := margin.breaks }

/-- Reads a block scalar from behind its first indicator, below a parent at the given column. -/
def blockScalar (folds : Bool) (parent : Int) (rest : List Char) (place : Place) :
    Except Fault (String × Spot) := do
  let (header, behind) ← Header.read rest {}
  let (body, below) ← endLine behind (place.skip (rest.length - behind.length))
  let floor := (parent + 1).toNat
  let given := match header.increment with
    | some increment => parent.toNat + increment
    | none => 0
  let margin ← passMargin given body below [] 0
  -- Where no column is given, the deepest blanks before the first line give it.
  let indent := if given = 0 then max (max margin.deepest floor) 1 else given
  let (reading, spot) ←
    blockLines folds indent (margin.rest.length + 1) (margin.rest, margin.place)
      { breaks := margin.breaks }
  return (reading.result header.chomping, spot)

end Topics.Yaml
