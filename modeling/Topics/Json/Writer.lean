import Topics.Json.Basic

/-! JSON values as text, on one line or indented. -/

namespace Topics.Json

/-- A character as it stands inside a written string. -/
def escape (c : Char) : List Char :=
  -- Only quotes, backslashes and control characters are escaped.
  if c = '"' then ['\\', '"']
  else if c = '\\' then ['\\', '\\']
  else if c = '\x08' then ['\\', 'b']
  else if c = '\t' then ['\\', 't']
  else if c = '\n' then ['\\', 'n']
  else if c = '\x0c' then ['\\', 'f']
  else if c = '\r' then ['\\', 'r']
  else if c < ' ' then ['\\', 'u', '0', '0', Hex.digit (c.toNat / 16), Hex.digit (c.toNat % 16)]
  else [c]

/-- A string between quotes. -/
def quote (text : String) : String :=
  String.ofList ('"' :: text.toList.flatMap escape ++ ['"'])

mutual

/-- A value on one line without blanks. -/
def compact : Json → String
  | null => "null"
  | bool true => "true"
  | bool false => "false"
  | number value => value.write
  | string text => quote text
  | array items => "[" ++ String.intercalate "," (compactItems items) ++ "]"
  | object entries => "\x7b" ++ String.intercalate "," (compactEntries entries) ++ "\x7d"

/-- The items of an array, each on one line. -/
def compactItems : List Json → List String
  | [] => []
  | item :: rest => compact item :: compactItems rest

/-- The entries of an object, each on one line. -/
def compactEntries : List (String × Json) → List String
  | [] => []
  | (key, value) :: rest => (quote key ++ ":" ++ compact value) :: compactEntries rest

end

/-- A line break followed by two blanks for each level. -/
def lineBreak (level : Nat) : String := String.ofList ('\n' :: List.replicate (2 * level) ' ')

/-- Written parts between brackets, one to a line, or nothing between them. -/
def bracketed (opening closing : String) (level : Nat) (parts : List String) : String :=
  -- Brackets without parts stay on one line.
  if parts.isEmpty then opening ++ closing
  else
    opening ++ lineBreak (level + 1) ++
      String.intercalate ("," ++ lineBreak (level + 1)) parts ++ lineBreak level ++ closing

mutual

/-- A value that stands `level` levels deep, with one item or entry to a line. -/
def indented (level : Nat) : Json → String
  | array items => bracketed "[" "]" level (indentedItems (level + 1) items)
  | object entries => bracketed "\x7b" "\x7d" level (indentedEntries (level + 1) entries)
  | scalar => compact scalar

/-- The items of an array that stand `level` levels deep. -/
def indentedItems (level : Nat) : List Json → List String
  | [] => []
  | item :: rest => indented level item :: indentedItems level rest

/-- The entries of an object that stand `level` levels deep. -/
def indentedEntries (level : Nat) : List (String × Json) → List String
  | [] => []
  | (key, value) :: rest =>
    (quote key ++ ": " ++ indented level value) :: indentedEntries level rest

end

/-- A value with one item or entry to a line. -/
def pretty (value : Json) : String := indented 0 value

end Topics.Json
