import Topics.Hex
import Topics.Yaml.Block

/-! Names, tags and directives: marks that say something about a node or a document. -/

namespace Topics.Yaml

/-- Whether a character can be part of a name. -/
def isWordChar (c : Char) : Bool := c.isAlphanum || c == '_' || c == '-'

/-- Whether something else than a name can follow a name directly. -/
def endsName (rest : List Char) : Bool :=
  atGap rest || rest.head?.any "?:,]\x7d%@`".toList.contains

/-- Reads the name of an anchor or alias. -/
def readName (rest : List Char) : Except Fault (String × List Char) :=
  let (name, behind) := rest.span isWordChar
  if name.isEmpty || !endsName behind then .error .malformedAnchor
  else .ok (String.ofList name, behind)

/-- Whether a character can be part of a tag as it is; some can only inside angle brackets. -/
def isTagChar (verbatim : Bool) (c : Char) : Bool :=
  isWordChar c || ";/?:@&=+$.!~*'()".toList.contains c ||
    (verbatim && (c == ',' || c == '[' || c == ']'))

/-- The number of octets that follow an octet in the code of one character. -/
def followers? (octet : Nat) : Option Nat :=
  if octet < 0x80 then some 0
  else if octet / 0x20 = 6 then some 1
  else if octet / 0x10 = 14 then some 2
  else if octet / 0x08 = 30 then some 3
  else none

/-- Reads the text of a tag, with octets in hexadecimal digits behind percent signs.

Each octet gives one character; `expected` is the number of octets that have to follow. -/
def readTagText (verbatim : Bool) :
    (expected : Nat) → List Char → Except Fault (List Char × List Char)
  | expected, '%' :: high :: low :: rest =>
    match Hex.digitValue? high, Hex.digitValue? low with
    | some h, some l => do
      let octet := 16 * h + l
      let expected ←
        match expected, followers? octet with
        | 0, some count => pure count
        | 0, none => throw .malformedTag
        | left + 1, _ => if octet / 0x40 = 2 then pure left else throw .malformedTag
      let (text, behind) ← readTagText verbatim expected rest
      return (Char.ofNat octet :: text, behind)
    | _, _ => .error .malformedTag
  | 0, c :: rest =>
    if c = '%' then .error .malformedTag
    else if isTagChar verbatim c then do
      let (text, behind) ← readTagText verbatim 0 rest
      return (c :: text, behind)
    else .ok ([], c :: rest)
  | 0, [] => .ok ([], [])
  | _ + 1, _ => .error .malformedTag

/-- The text of the given characters, which ends before the first NUL. -/
def tagText (text : List Char) : String := String.ofList (text.takeWhile (· != '\x00'))

/-- A tag as it is written: a handle, empty for a tag in full, and what stands behind it. -/
structure WrittenTag where
  /-- The handle, with its exclamation marks. -/
  handle : String
  /-- The text behind the handle. -/
  suffix : String
  deriving DecidableEq, Repr

namespace WrittenTag

/-- Reads a tag from behind its first exclamation mark. -/
def read : List Char → Except Fault (WrittenTag × List Char)
  | '<' :: rest => do
    let (text, behind) ← readTagText true 0 rest
    match text, behind with
    | [], _ => throw .malformedTag
    | _, '>' :: behind => return (⟨"", tagText text⟩, behind)
    | _, _ => throw .malformedTag
  | rest => do
    -- Only a second exclamation mark makes the word before it part of a handle.
    let (word, behind) := rest.span isWordChar
    match behind with
    | '!' :: body =>
      let (text, behind) ← readTagText false 0 body
      if text.isEmpty then throw .malformedTag
      return (⟨String.ofList ('!' :: (word ++ ['!'])), tagText text⟩, behind)
    | _ =>
      let (text, behind) ← readTagText false 0 behind
      let suffix := tagText (word ++ text)
      return (if suffix = "" then ⟨"", "!"⟩ else ⟨"!", suffix⟩, behind)

/-- The text of a tag, given what handles stand for; the first entry of a handle counts. -/
def text? (tag : WrittenTag) (handles : List (String × String)) : Option String :=
  if tag.handle = "" then some tag.suffix
  else (handles.lookup tag.handle).map (· ++ tag.suffix)

/-- The handles that need no directive. -/
def commonHandles : List (String × String) := [("!", "!"), ("!!", "tag:yaml.org,2002:")]

/-- The tag of truth values. -/
def bool : String := "tag:yaml.org,2002:bool"

end WrittenTag

/-- A line that says something about the document below it. -/
inductive Directive where
  /-- The version of the language. -/
  | version (major minor : Nat)
  /-- What a handle stands for. -/
  | handle (name replacement : String)
  deriving DecidableEq, Repr

namespace Directive

/-- Reads a number of at most nine digits. -/
def readNumber (rest : List Char) : Except Fault (Nat × List Char) :=
  let (digits, behind) := rest.span Char.isDigit
  if digits.isEmpty || 9 < digits.length then .error .malformedDirective
  else .ok (Nat.ofDigitChars 10 digits 0, behind)

/-- Reads a version. -/
def readVersion (rest : List Char) : Except Fault (Directive × List Char) := do
  let (major, behind) ← readNumber rest
  match behind with
  | '.' :: behind =>
    let (minor, behind) ← readNumber behind
    return (version major minor, behind)
  | _ => throw .malformedDirective

/-- Reads a handle and what it stands for. -/
def readHandle : List Char → Except Fault (Directive × List Char)
  | '!' :: rest => do
    let (word, behind) := rest.span isWordChar
    -- One exclamation mark alone is a handle too.
    let (name, behind) ←
      match behind with
      | '!' :: behind => pure ('!' :: (word ++ ['!']), behind)
      | _ => if word.isEmpty then pure (['!'], behind) else throw .malformedDirective
    if !behind.head?.any isSpace then throw .malformedDirective
    let (text, behind) ← readTagText true 0 (behind.dropWhile isSpace)
    if text.isEmpty || !atGap behind then throw .malformedDirective
    return (handle (String.ofList name) (tagText text), behind)
  | _ => .error .malformedDirective

/-- Reads a directive from behind its percent sign; what is left of its line is not read. -/
def read (rest : List Char) : Except Fault (Directive × List Char) :=
  let (name, behind) := rest.span isWordChar
  let value := behind.dropWhile isSpace
  if !atGap behind then .error .malformedDirective
  else if name = "YAML".toList then readVersion value
  else if name = "TAG".toList then readHandle value
  else .error .malformedDirective

/-- Takes a directive into account: what the handles stand for, and whether a version is given. -/
def apply (directive : Directive) (handles : List (String × String)) (versioned : Bool) :
    Except Fault (List (String × String) × Bool) :=
  match directive with
  | version major minor =>
    if versioned || major != 1 || (minor != 1 && minor != 2) then .error .malformedDirective
    else .ok (handles, true)
  | handle name replacement =>
    if (handles.lookup name).isSome then .error .malformedDirective
    else .ok (handles ++ [(name, replacement)], versioned)

end Directive

end Topics.Yaml
