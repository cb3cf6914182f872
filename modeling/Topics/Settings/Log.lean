import Topics.Json.Reader
import Topics.Text.Blank

/-! How much is logged: one level for everything, and levels for single components. -/

namespace Topics

/-- Puts a name in its place among names in ascending order, replacing its level. -/
def placeLevel (name level : String) : List (String × String) → List (String × String)
  | [] => [(name, level)]
  | (key, held) :: rest =>
    if name < key then (name, level) :: (key, held) :: rest
    else if name = key then (name, level) :: rest
    else (key, held) :: placeLevel name level rest

/-- The settings of the log. -/
structure LogSettings where
  /-- The level for everything. -/
  level : String := "warn"
  /-- The levels of single components, by name in ascending order. -/
  components : List (String × String) := []
  /-- Whether lines are written as JSON. -/
  json : Bool := false
  deriving DecidableEq, Repr

namespace LogSettings

/-- The levels of components, put in order of their names; of equal names the last one counts. -/
def sorted (entries : List (String × String)) : List (String × String) :=
  entries.foldl (fun held (name, level) => placeLevel name level held) []

/-- A component's name as directives spell it. -/
def directiveName (component : String) : String :=
  component.map fun c => if c = '-' then '_' else c

/-- The directives that the settings stand for. -/
def directives (settings : LogSettings) : String :=
  String.intercalate "," <|
    settings.level ::
      settings.components.map fun (component, level) => directiveName component ++ "=" ++ level

/-- The directives in force: those of the environment where it gives any. -/
def effectiveDirectives (settings : LogSettings) (environment : Option String) : String :=
  -- Blanks alone give no directive.
  match environment with
  | some given => if Text.isBlankText given then settings.directives else given
  | none => settings.directives

/-- The settings as JSON. -/
def toJson (settings : LogSettings) : Json :=
  .object [("level", .string settings.level),
    ("components",
      .object (settings.components.map fun (component, level) => (component, .string level))),
    ("json", .bool settings.json)]

/-- The fields of the settings in JSON text; each may be left out. -/
def slots : List (Json.Reader.Slot LogSettings) :=
  [⟨"level", false, fun _ settings => do
      return { settings with level := ← Json.Reader.wantedString }⟩,
    ⟨"components", false, fun depth settings => do
      return { settings with components := sorted (← Json.Reader.wantedStrings depth) }⟩,
    ⟨"json", false, fun _ settings => do
      return { settings with json := ← Json.Reader.wantedBool }⟩]

/-- Reads settings from JSON text. -/
def ofText (text : String) : Except Json.Fault LogSettings :=
  Json.Reader.document (Json.Reader.record slots {} Json.Reader.deepest) text

end LogSettings

end Topics
