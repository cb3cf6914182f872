import Topics.CommandLine.Arguments
import Topics.CommandLine.Assignment
import Topics.CommandLine.Files
import Topics.Payload
import Topics.Registry.Builtin
import Topics.Schema

/-! Each command prints its answer, or fails with a report. -/

namespace Topics.CommandLine

/-- What a run leaves behind. -/
structure Outcome where
  /-- The exit code. -/
  code : Nat
  /-- The text on standard output. -/
  stdout : String
  /-- The text on standard error. -/
  stderr : String
  deriving DecidableEq, Repr

namespace Outcome

/-- A run that succeeds with an answer. -/
def success (stdout : String) : Outcome := ⟨0, stdout, ""⟩

/-- A run that fails. -/
def failure (failed : Failure) : Outcome := ⟨1, "", failed.report⟩

end Outcome

/-- A text with blanks behind it up to the given width. -/
def padded (width : Nat) (text : String) : String :=
  text ++ String.ofList (List.replicate (width - text.length) ' ')

/-- Each line of an answer ends with a line break. -/
def lines (parts : List String) : String := String.join (parts.map (· ++ "\n"))

/-- One line for each definition: its id, wildcard and format. -/
def listing (registry : Registry) : String :=
  lines <|
    s!"{registry.size} subjects:" :: registry.definitions.map fun definition =>
      "  " ++ padded 28 definition.id ++ " " ++ padded 24 definition.wildcard ++ " " ++
        definition.format

/-- All that a definition says. -/
def description (definition : Definition) : String :=
  lines <|
    [s!"Subject:  {definition.id} ({definition.subject})", s!"Entity:   {definition.entity}",
      s!"Format:   {definition.format}", s!"Wildcard: {definition.wildcard}", "Fields:"] ++
    definition.fields.map (fun spec =>
      "  - " ++ padded 14 spec.name ++ " " ++ padded 18 spec.type.name ++ " " ++
        spec.description) ++
    if definition.hasVariants then
      ["Variants: " ++ String.intercalate ", " (definition.variants.map Prod.fst)]
    else []

/-- The fields of a topic, line by line or as JSON. -/
def fieldReport (definition : Definition) (fields : FieldMap) (json : Bool) : String :=
  if json then
    let document : Json :=
      .object [("subject", .string definition.id), ("fields", Payload.ofValues fields)]
    lines [document.pretty]
  else
    lines <|
      s!"Subject: {definition.id}" :: "Fields:" :: fields.entries.map fun (name, value) =>
        "  " ++ name ++ ": " ++ value.text

/-- A result whose error is reported as a failure. -/
def orFail {α : Type} (result : Except TopicError α) : Except Failure α :=
  result.mapError Failure.ofError

/-- A result whose error is reported as the cause of a failure. -/
def orFailWithin {α : Type} (message : String) (result : Except TopicError α) :
    Except Failure α :=
  result.mapError fun error => (Failure.ofError error).within message

/-- Says whether a pattern selects a topic; the run succeeds only if it does. -/
def comparison (pattern topic : String) : Except Failure Outcome := do
  let pattern ← orFail (Pattern.ofText pattern)
  if pattern.selects topic then
    return .success (lines [s!"✓ '{topic}' matches '{pattern.text}'"])
  else return ⟨1, "", lines [s!"✗ '{topic}' does not match '{pattern.text}'"]⟩

/-- The pattern that a payload asks for. -/
def payloadPattern (registry : Registry) (text : String) : Except Failure String := do
  let payload ← orFailWithin "invalid payload JSON" (Payload.ofText text)
  orFail (payload.pattern registry)

/-- Runs a command under the given settings. -/
def Invocation.run (invocation : Invocation) (registry : Registry) (settings : Settings) :
    Except Failure Outcome := do
  -- The number of operands has been checked, so a missing one is never asked for.
  let first := invocation.inner.operands.head?.getD ""
  let second := invocation.inner.operands.tail.head?
  let json := invocation.hasFlag .json
  match invocation.command with
  | .list => return .success (listing registry)
  | .describe => return .success (description (← orFail (registry.select first second)))
  | .build =>
    let definition ← orFail (registry.select first second)
    let assignments := invocation.inner.allValues .field
    let fields ← (assignedFields definition assignments).mapError AssignmentError.failure
    let asPattern := invocation.hasFlag .openFields || settings.partialByDefault
    let mode : BuildMode := if asPattern then .pattern else .topic
    return .success (lines [← orFail (definition.build fields mode)])
  | .parse =>
    let definition ← orFail (registry.select first second)
    let topic := (invocation.inner.value? .topic).getD ""
    let fields ←
      orFailWithin s!"'{topic}' is not a {definition.id} topic" (definition.parse topic)
    return .success (fieldReport definition fields json)
  | .resolve =>
    let found ← orFailWithin s!"cannot resolve '{first}'" (registry.resolve first)
    return .success (fieldReport found.definition found.fields json)
  | .compare => comparison first (second.getD "")
  | .payload => return .success (lines [← payloadPattern registry first])
  | .schema =>
    let document := registry.schema
    let compact := invocation.hasFlag .compact
    return .success (lines [if compact then document.compact else document.pretty])

/-- The settings in a file, given what reading the file gave. -/
def loadSettings (path : String) (content : Except ReadFault String) : Except Failure Settings :=
  match content with
  | .error fault => .error ⟨s!"cannot read config '{path}'", [fault.message]⟩
  | .ok text =>
    match Settings.ofYaml text with
    | .error fault => .error ⟨s!"in '{path}'", ["invalid config YAML", fault.message]⟩
    | .ok settings => .ok settings

/-- The settings for a command: those of its file, or the default ones, after its flags. -/
def Invocation.settings (invocation : Invocation) (environment : Option String)
    (read : String → Except ReadFault String) : Except Failure Settings := do
  -- Without a file the flags apply to the default settings.
  let loaded ←
    match invocation.configPath? environment with
    | none => .ok {}
    | some path => loadSettings path (read path)
  return loaded.apply invocation.settingsFlags

/-- The name and version of the program. -/
def versionLine : String := "subjectkit 0.1.0\n"

/-- How the program is called. -/
def usageText : String :=
  lines <|
    "Usage: subjectkit [OPTIONS] <COMMAND>" :: "" :: "Commands:" ::
      Command.all.map fun command => "  " ++ command.word

/-- A whole run, given its arguments, the settings path of the environment, and the files. -/
def respond (arguments : List String) (environment : Option String)
    (read : String → Except ReadFault String) : Outcome :=
  match Invocation.ofArguments arguments with
  | .error .usage => ⟨2, "", usageText⟩
  | .error .help => .success usageText
  | .error .version => .success versionLine
  | .ok invocation =>
    -- An empty path in the environment is no more a path than one among the arguments.
    if invocation.configPath? environment = some "" then ⟨2, "", usageText⟩
    else match (do invocation.run .builtin (← invocation.settings environment read)) with
    | .ok outcome => outcome
    | .error failed => .failure failed

end Topics.CommandLine
