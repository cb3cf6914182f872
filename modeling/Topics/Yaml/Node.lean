import Topics.OrderedMap
import Topics.Yaml.Token

/-! The values that a YAML text is made of. -/

namespace Topics.Yaml

/-- A value in a text. -/
inductive Node where
  /-- Text, with the way in which it is written and its tag. -/
  | scalar (text : String) (style : Style) (tag : Option String)
  | sequence (items : List Node)
  | mapping (entries : List (Node × Node))
  /-- The value with an anchor, by the anchor's number. -/
  | alias (number : Nat)
  deriving Repr

/-- A text's value, with the values that aliases in it stand for. -/
structure Document where
  /-- The value of the whole text. -/
  root : Node
  /-- The values with an anchor, by the anchor's number. -/
  anchored : List (Nat × Node)
  deriving Repr

namespace Node

/-- The value where a text has none. -/
def empty : Node := scalar "" .plain none

/-- What is known between two tokens. -/
structure Cursor where
  /-- The tokens left. -/
  tokens : List Token
  /-- What the handles of tags stand for. -/
  handles : List (String × String)
  /-- The anchors so far with their numbers; a name that came again has its last number. -/
  names : List (String × Nat) := []
  /-- The values that are complete and have an anchor, each under the last anchor's number. -/
  anchored : List (Nat × Node) := []

/-- A step that reads from the front of the tokens left. -/
abbrev Reader := StateT Cursor (Except Fault)

namespace Reader

/-- Refuses the text. -/
def fail {α : Type} (fault : Fault) : Reader α := fun _ => .error fault

/-- The next token, which stays unread; there is none at the end of the text. -/
def peek? : Reader (Option Token) := return (← get).tokens.head?

/-- Passes over the next token. -/
def advance : Reader Unit := modify fun cursor => { cursor with tokens := cursor.tokens.tail }

/-- Whether one of the given tokens comes next. -/
def comes (tokens : List Token) : Reader Bool := return (← peek?).any tokens.contains

/-- Passes over the given token where it comes next, and tells whether it does. -/
def passes (token : Token) : Reader Bool := do
  if ← comes [token] then
    advance
    return true
  else return false

/-- Passes over the given token, which has to come next. -/
def expect (token : Token) : Reader Unit := do
  if ← passes token then return ()
  else fail .unexpectedToken

/-- Reads an anchor, where there is one. -/
def anchor? : Reader (Option String) := do
  match ← peek? with
  | some (.anchor name) =>
    advance
    return some name
  | _ => return none

/-- Reads a tag, where there is one. -/
def tag? : Reader (Option String) := do
  match ← peek? with
  | some (.tag written) =>
    advance
    match written.text? (← get).handles with
    | some text => return some text
    | none => fail .unknownHandle
  | _ => return none

/-- Gives an anchor its number: how many different names there are before it. -/
def declare (name : String) : Reader Nat := do
  let number := (← get).names.length
  -- A name that comes again takes the number of the next new one, which then replaces it.
  modify fun cursor =>
    { cursor with
      names := putEntry name number cursor.names
      anchored := cursor.anchored.filter (·.1 != number) }
  return number

/-- Keeps the value of an anchor, behind those of the anchors inside it. -/
def keep (number : Nat) (node : Node) : Reader Unit :=
  modify fun cursor => { cursor with anchored := cursor.anchored ++ [(number, node)] }

/-- The value that an alias stands for: the last one before it with this anchor. -/
def aliased (name : String) : Reader Node := do
  match lookupEntry name (← get).names with
  | some number => return .alias number
  | none => fail .unknownAnchor

/-- The tokens that leave an entry of a block mapping without a value. -/
def blockStops : List Token := [.key, .value, .blockEnd]

mutual

/-- Reads a value; `indentless` allows a sequence whose dashes stand below their key. -/
def node : (fuel : Nat) → (block indentless : Bool) → Reader Node
  | 0, _, _ => fail .unexpectedToken
  | fuel + 1, block, indentless => do
    match ← peek? with
    | some (.alias name) =>
      advance
      aliased name
    | _ =>
      -- An anchor and a tag can stand in either order.
      let first ← anchor?
      let tag ← tag?
      let name ← if first.isSome then pure first else if tag.isSome then anchor? else pure none
      match name with
      | none => content fuel block indentless false tag
      | some name =>
        -- The value's own parts can refer to its anchor already.
        let number ← declare name
        let held ← content fuel block indentless true tag
        keep number held
        return held

/-- Reads a value behind its marks; behind a mark it can be left out. -/
def content : (fuel : Nat) → (block indentless named : Bool) → (tag : Option String) →
    Reader Node
  | 0, _, _, _, _ => fail .unexpectedToken
  | fuel + 1, block, indentless, named, tag => do
    match ← peek?, block, indentless with
    | some (.scalar text style), _, _ =>
      advance
      -- A single mark is no tag of a scalar.
      return .scalar text style (if tag = some "!" then none else tag)
    | some .flowSequence, _, _ =>
      advance
      return .sequence (← flowItems fuel true)
    | some .flowMapping, _, _ =>
      advance
      return .mapping (← flowEntries fuel true)
    | some .blockSequence, true, _ =>
      advance
      return .sequence (← items fuel)
    | some .blockMapping, true, _ =>
      advance
      return .mapping (← entries fuel)
    | some .blockEntry, _, true => return .sequence (← indentlessItems fuel)
    | _, _, _ =>
      if named || tag.isSome then return .scalar "" .plain tag else fail .unexpectedToken

/-- Reads a value, or none where one of the given tokens stands in its place. -/
def nodeUnless : (fuel : Nat) → (stops : List Token) → (block indentless : Bool) → Reader Node
  | 0, _, _, _ => fail .unexpectedToken
  | fuel + 1, stops, block, indentless => do
    -- Such a token is left for whoever reads the collection around the value.
    if ← comes stops then return empty else node fuel block indentless

/-- Reads the value behind a colon, where there is a colon. -/
def value : (fuel : Nat) → (stops : List Token) → (block : Bool) → Reader Node
  | 0, _, _ => fail .unexpectedToken
  | fuel + 1, stops, block => do
    if ← passes .value then nodeUnless fuel stops block block else return empty

/-- Reads the items of a block sequence up to its end. -/
def items : (fuel : Nat) → Reader (List Node)
  | 0 => fail .unexpectedToken
  | fuel + 1 => do
    if ← passes .blockEntry then
      let item ← nodeUnless fuel [.blockEntry, .blockEnd] true false
      return item :: (← items fuel)
    else if ← passes .blockEnd then return []
    else fail .unexpectedToken

/-- Reads the items of a sequence that has no indentation of its own. -/
def indentlessItems : (fuel : Nat) → Reader (List Node)
  | 0 => fail .unexpectedToken
  | fuel + 1 => do
    if ← passes .blockEntry then
      let item ← nodeUnless fuel (.blockEntry :: blockStops) true false
      return item :: (← indentlessItems fuel)
    else return []

/-- Reads the entries of a block mapping up to its end. -/
def entries : (fuel : Nat) → Reader (List (Node × Node))
  | 0 => fail .unexpectedToken
  | fuel + 1 => do
    if ← passes .key then
      let key ← nodeUnless fuel blockStops true true
      let held ← value fuel blockStops true
      return (key, held) :: (← entries fuel)
    else if ← passes .blockEnd then return []
    else fail .unexpectedToken

/-- Reads the items of a flow sequence; a key among them makes a mapping of one entry. -/
def flowItems : (fuel : Nat) → (first : Bool) → Reader (List Node)
  | 0, _ => fail .unexpectedToken
  | fuel + 1, first => do
    if ← passes .flowSequenceEnd then return []
    if !first then expect .flowEntry
    if ← passes .flowSequenceEnd then return []
    else if ← passes .key then
      -- The token that shows a key to be empty is read as a part of it.
      let noKey ← comes [.value, .flowEntry, .flowSequenceEnd]
      let key ← if noKey then do advance; pure empty else node fuel false false
      let held ← value fuel [.flowEntry, .flowSequenceEnd] false
      return .mapping [(key, held)] :: (← flowItems fuel false)
    else
      let item ← node fuel false false
      return item :: (← flowItems fuel false)

/-- Reads the entries of a flow mapping; an item without a colon is a key without a value. -/
def flowEntries : (fuel : Nat) → (first : Bool) → Reader (List (Node × Node))
  | 0, _ => fail .unexpectedToken
  | fuel + 1, first => do
    if ← passes .flowMappingEnd then return []
    if !first then expect .flowEntry
    if ← passes .flowMappingEnd then return []
    else if ← passes .key then
      let key ← nodeUnless fuel [.value, .flowEntry, .flowMappingEnd] false false
      let held ← value fuel [.flowEntry, .flowMappingEnd] false
      return (key, held) :: (← flowEntries fuel false)
    else
      let key ← node fuel false false
      return (key, empty) :: (← flowEntries fuel false)

end

end Reader

end Node

namespace Document

open Node

/-- Reads the directives before a document; the result is what the handles of tags stand for. -/
def readDirectives : List Token → (handles : List (String × String)) → (versioned : Bool) →
    Except Fault (List (String × String) × List Token)
  | .directive directive :: rest, handles, versioned => do
    let (handles, versioned) ← directive.apply handles versioned
    readDirectives rest handles versioned
  | rest, handles, _ => .ok (handles ++ WrittenTag.commonHandles, rest)

/-- Whether a token stands where a document has no content. -/
def endsContent : Option Token → Bool
  | none => true
  | some (.directive _) => true
  | some token => token == .documentStart || token == .documentEnd

/-- The only document that tokens make up; where it has no content its value is empty. -/
def ofTokens (tokens : List Token) : Except Fault Document := do
  let (handles, body) ← readDirectives tokens [] false
  -- Directives need a mark behind them, and without the mark there has to be content.
  let marked := body.head? == some .documentStart
  if tokens.length ≠ body.length ∧ ¬ marked then throw .unexpectedToken
  let body := if marked then body.tail else body
  let contentless := if marked then endsContent body.head? else tokens.isEmpty
  let reader : Node.Reader Node :=
    if contentless then pure Node.empty else Reader.node (4 * body.length + 4) true false
  let (root, cursor) ← reader.run { tokens := body, handles }
  if cursor.tokens.all (· == .documentEnd) then return ⟨root, cursor.anchored⟩
  else throw .unexpectedToken

/-- The document that a text is. -/
def ofText (text : String) : Except Fault Document := do ofTokens (← Token.scan text)

/-- The value that a node is or stands for. -/
def follow (document : Document) : Node → Node
  | .alias number => (document.anchored.lookup number).getD .empty
  | node => node

end Document

end Topics.Yaml
