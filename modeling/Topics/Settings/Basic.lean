import Topics.Settings.Log
import Topics.Yaml.Node

/-! The settings of the command line, read from a YAML file. -/

namespace Topics

/-- The settings of the command line. -/
structure Settings where
  /-- The settings of the log. -/
  log : LogSettings := {}
  /-- Whether topics are built as patterns unless all fields are set. -/
  partialByDefault : Bool := false
  deriving DecidableEq, Repr

namespace Yaml.Document

/-- A scalar as text, whatever it looks like. -/
def text? (document : Document) (node : Node) : Except Fault String :=
  match document.follow node with
  | .scalar text _ _ => .ok text
  | _ => .error .unexpectedShape

/-- A truth value in one of three spellings; it stands without quotes. -/
def bool? (document : Document) (node : Node) : Except Fault Bool :=
  match document.follow node with
  | .scalar text style tag =>
    -- On lines of its own a scalar is a truth value only if its tag says so.
    if style = .plain ∨ (style = .literal ∧ tag = some WrittenTag.bool) then
      if ["true", "True", "TRUE"].contains text then .ok true
      else if ["false", "False", "FALSE"].contains text then .ok false
      else .error .unexpectedShape
    else .error .unexpectedShape
  | _ => .error .unexpectedShape

/-- The entries of a mapping; nothing stands for the empty one. -/
def entries? (document : Document) (node : Node) : Except Fault (List (Node × Node)) :=
  match document.follow node with
  | .mapping entries => .ok entries
  | .scalar "" .plain _ => .ok []
  | _ => .error .unexpectedShape

/-- A mapping between texts. -/
def texts? (document : Document) (node : Node) : Except Fault (List (String × String)) := do
  (← document.entries? node).mapM fun (key, value) => do
    return (← document.text? key, ← document.text? value)

/-- One field of a record that is built up in `σ`. -/
structure Slot (σ : Type) where
  /-- The field's name. -/
  name : String
  /-- Puts the field's value into the record. -/
  fill : Document → Node → σ → Except Fault σ

/-- Fills fields by name; a field can be given once, and other names are passed over. -/
def fill {σ : Type} (document : Document) (slots : List (Slot σ)) :
    (seen : List String) → List (Node × Node) → σ → Except Fault σ
  | _, [], record => .ok record
  | seen, (key, value) :: rest, record => do
    let name ← document.text? key
    match slots.find? (fun slot => slot.name == name) with
    | none => document.fill slots seen rest record
    | some slot =>
      -- Unknown names can be repeated, known ones cannot.
      if name ∈ seen then throw .unexpectedShape
      document.fill slots (name :: seen) rest (← slot.fill document value record)

/-- A record given as a mapping, starting from its default. -/
def record {σ : Type} (slots : List (Slot σ)) (start : σ) (document : Document) (node : Node) :
    Except Fault σ := do
  document.fill slots [] (← document.entries? node) start

end Yaml.Document

/-- The fields of the log's settings in YAML. -/
def LogSettings.yamlSlots : List (Yaml.Document.Slot LogSettings) :=
  [⟨"level", fun document node settings => do
      return { settings with level := ← document.text? node }⟩,
    ⟨"components", fun document node settings => do
      return { settings with components := sorted (← document.texts? node) }⟩,
    ⟨"json", fun document node settings => do
      return { settings with json := ← document.bool? node }⟩]

namespace Settings

/-- The fields of the settings in YAML. -/
def yamlSlots : List (Yaml.Document.Slot Settings) :=
  [⟨"log", fun document node settings => do
      return { settings with log := ← document.record LogSettings.yamlSlots {} node }⟩,
    ⟨"default_partial", fun document node settings => do
      return { settings with partialByDefault := ← document.bool? node }⟩]

/-- Reads settings from YAML text. -/
def ofYaml (text : String) : Except Yaml.Fault Settings := do
  let document ← Yaml.Document.ofText text
  document.record yamlSlots {} document.root

/-- What the command line says on top of the file. -/
structure Flags where
  /-- Whether debug messages are wanted. -/
  verbose : Bool := false
  /-- The level of the log, which counts more than `verbose`. -/
  level : Option String := none
  /-- Whether the log is wanted as JSON. -/
  jsonLogs : Bool := false
  deriving DecidableEq, Repr

/-- The settings after the flags of the command line. -/
def apply (settings : Settings) (flags : Flags) : Settings :=
  { settings with
    log := { settings.log with
      level := flags.level.getD (if flags.verbose then "debug" else settings.log.level)
      json := flags.jsonLogs || settings.log.json } }

/-- The settings as JSON. -/
def toJson (settings : Settings) : Json :=
  .object [("log", settings.log.toJson), ("default_partial", .bool settings.partialByDefault)]

end Settings

end Topics
