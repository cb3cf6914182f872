import Topics.Error
import Topics.Token

/-! Patterns select topics token by token, with wildcards for one token and for a tail. -/

namespace Topics

/-- The token that stands for any one token. -/
def singleWildcard : String := "*"

/-- The token that stands for one or more tokens at the end. -/
def tailWildcard : String := ">"

/-- Whether the tokens of a pattern select the tokens of a topic. -/
def selectsTokens : List String → List String → Bool
  | [], rest => rest.isEmpty
  | part :: parts, rest =>
    -- A tail wildcard takes all that is left, but only as the last token and from something.
    if part = tailWildcard then parts.isEmpty && !rest.isEmpty
    else match rest with
      | [] => false
      | token :: more =>
        (part == singleWildcard || part == token) && selectsTokens parts more

/-- Whether a text, read as a pattern, selects a topic. -/
def selects (pattern topic : String) : Bool := selectsTokens (tokens pattern) (tokens topic)

/-- Why a text is no pattern, or nothing if it is one. -/
def patternFault? (pattern : String) : Option PatternFault :=
  let parts := tokens pattern
  -- Of two faults the empty token counts, wherever it stands.
  if "" ∈ parts then some .emptyToken
  else if tailWildcard ∈ parts.dropLast then some .tailNotLast
  else none

/-- What one token of a pattern asks of a topic. -/
inductive PatternStep where
  /-- This very token. -/
  | exact (token : String)
  /-- Any one token. -/
  | single
  /-- One or more tokens up to the end. -/
  | tail
  deriving DecidableEq, Repr

/-- What a token asks for. -/
def PatternStep.ofToken (token : String) : PatternStep :=
  if token = singleWildcard then single
  else if token = tailWildcard then tail
  else exact token

/-- Whether steps lead through the tokens of a topic; nothing is looked at behind a tail. -/
def selectsSteps : List PatternStep → List String → Bool
  | [], rest => rest.isEmpty
  | .tail :: _, rest => !rest.isEmpty
  | _ :: _, [] => false
  | .single :: steps, _ :: rest => selectsSteps steps rest
  | .exact token :: steps, found :: rest => token == found && selectsSteps steps rest

/-- A text without fault, with its steps. -/
structure Pattern where
  /-- The pattern as it is written. -/
  text : String
  /-- What its tokens ask for. -/
  steps : List PatternStep
  /-- The text has no fault. -/
  sound : patternFault? text = none
  /-- There is one step for each token. -/
  compiled : steps = (tokens text).map PatternStep.ofToken

namespace Pattern

/-- Takes a text as a pattern. -/
def ofText (text : String) : Except TopicError Pattern :=
  -- The absence of a fault is what the pattern keeps as its invariant.
  match fault : patternFault? text with
  | some found => .error (.invalidPattern text found)
  | none => .ok ⟨text, _, fault, rfl⟩

/-- Whether the pattern has no wildcard. -/
def isLiteral (pattern : Pattern) : Bool :=
  pattern.steps.all fun step => match step with
    | .exact _ => true
    | _ => false

/-- Whether the pattern selects a topic. -/
def selects (pattern : Pattern) (topic : String) : Bool :=
  selectsSteps pattern.steps (tokens topic)

end Pattern

end Topics
