import Topics.Settings.Basic

/-! The arguments of the command line, read from left to right. -/

namespace Topics.CommandLine

/-- Why arguments name no command to run. -/
inductive Stop where
  /-- The arguments follow no usage. -/
  | usage
  /-- Help is asked for. -/
  | help
  /-- The version is asked for. -/
  | version
  deriving DecidableEq, Repr

/-- An argument that is there or not. -/
inductive Flag where
  | verbose
  | jsonLogs
  | openFields
  | json
  | compact
  deriving DecidableEq, Repr

/-- An argument with a value. -/
inductive Parameter where
  | logLevel
  | config
  | field
  | topic
  deriving DecidableEq, Repr

/-- What a name on the command line asks for. -/
inductive Meaning where
  | flag (flag : Flag)
  | parameter (parameter : Parameter)
  | stop (stop : Stop)
  deriving DecidableEq, Repr

/-- The commands. -/
inductive Command where
  | list
  | describe
  | build
  | parse
  | resolve
  | compare
  | payload
  | schema
  deriving DecidableEq, Repr

namespace Command

/-- All commands. -/
def all : List Command := [list, describe, build, parse, resolve, compare, payload, schema]

/-- The word for a command. -/
def word : Command → String
  | list => "list"
  | describe => "show"
  | build => "build"
  | parse => "parse"
  | resolve => "resolve"
  | compare => "match"
  | payload => "payload"
  | schema => "schema"

/-- The least and the greatest number of operands. -/
def operands : Command → Nat × Nat
  | list => (0, 0)
  | describe => (1, 2)
  | build => (1, 2)
  | parse => (1, 2)
  | resolve => (1, 1)
  | compare => (2, 2)
  | payload => (1, 1)
  | schema => (0, 0)

/-- The long names that only this command knows. -/
def longNames : Command → List (String × Meaning)
  | build => [("field", .parameter .field), ("partial", .flag .openFields)]
  | parse => [("topic", .parameter .topic), ("json", .flag .json)]
  | resolve => [("json", .flag .json)]
  | schema => [("compact", .flag .compact)]
  | _ => []

/-- The letters that only this command knows. -/
def letters : Command → List (Char × Meaning)
  | build => [('f', .parameter .field)]
  | _ => []

end Command

/-- The long names known before a command, or behind it. -/
def longNames : Option Command → List (String × Meaning)
  | none => ("version", .stop .version) :: shared
  | some command => command.longNames ++ shared
where
  /-- The long names known everywhere. -/
  shared : List (String × Meaning) :=
    [("verbose", .flag .verbose), ("log-level", .parameter .logLevel),
      ("json-logs", .flag .jsonLogs), ("config", .parameter .config), ("help", .stop .help)]

/-- The letters known before a command, or behind it. -/
def letters : Option Command → List (Char × Meaning)
  | none => ('V', .stop .version) :: shared
  | some command => command.letters ++ shared
where
  /-- The letters known everywhere. -/
  shared : List (Char × Meaning) :=
    [('v', .flag .verbose), ('c', .parameter .config), ('h', .stop .help)]

/-- What has been read before a command, or behind it. -/
structure Arguments where
  /-- The flags that are there. -/
  flags : List Flag := []
  /-- The parameters with their values, in order. -/
  values : List (Parameter × String) := []
  /-- The operands, in order. -/
  operands : List String := []
  deriving Repr

namespace Arguments

/-- Sets a flag, which can be set once. -/
def setFlag (arguments : Arguments) (flag : Flag) : Except Stop Arguments :=
  if flag ∈ arguments.flags then .error .usage
  else .ok { arguments with flags := flag :: arguments.flags }

/-- Gives a parameter its value; only fields can be given more than once, and no path is empty. -/
def setValue (arguments : Arguments) (parameter : Parameter) (value : String) :
    Except Stop Arguments :=
  let again := parameter ≠ .field ∧ (arguments.values.any fun (held, _) => held == parameter)
  if again ∨ (parameter = .config ∧ value = "") then .error .usage
  else .ok { arguments with values := arguments.values ++ [(parameter, value)] }

/-- The value of a parameter. -/
def value? (arguments : Arguments) (parameter : Parameter) : Option String :=
  (arguments.values.find? fun (held, _) => held == parameter).map Prod.snd

/-- All values of a parameter, in order. -/
def allValues (arguments : Arguments) (parameter : Parameter) : List String :=
  arguments.values.filterMap fun (held, value) => if held = parameter then some value else none

end Arguments

/-- Whether an argument can be a value or an operand, as names start with a dash. -/
def isOperand (argument : String) : Bool :=
  argument == "-" || argument.toList.head? != some '-'

/-- Reads a long name, with the value behind its equals sign if there is one.

The result names the parameter that still waits for its value. -/
def readLong (command : Option Command) (body : List Char) (arguments : Arguments) :
    Except Stop (Arguments × Option Parameter) := do
  -- Only a parameter can have a value behind its name.
  let (name, attached) := body.span (· ≠ '=')
  let known := (longNames command).find? fun (long, _) => long == String.ofList name
  match known.map Prod.snd, attached with
  | none, _ => .error .usage
  | some (.stop stop), [] => .error stop
  | some (.flag flag), [] => return (← arguments.setFlag flag, none)
  | some (.parameter parameter), [] => return (arguments, some parameter)
  | some (.parameter parameter), _ :: value =>
    return (← arguments.setValue parameter (String.ofList value), none)
  | some _, _ :: _ => .error .usage

/-- Reads letters behind one dash; what follows the letter of a parameter is its value. -/
def readLetters (command : Option Command) :
    List Char → Arguments → Except Stop (Arguments × Option Parameter)
  | [], arguments => .ok (arguments, none)
  | c :: rest, arguments => do
    -- Flags can stand side by side, and a parameter's letter is the last one.
    match ((letters command).find? fun (letter, _) => letter == c).map Prod.snd, rest with
    | none, _ => .error .usage
    | some (.stop stop), _ => .error stop
    | some (.flag flag), _ => readLetters command rest (← arguments.setFlag flag)
    | some (.parameter parameter), [] => return (arguments, some parameter)
    | some (.parameter parameter), '=' :: value =>
      return (← arguments.setValue parameter (String.ofList value), none)
    | some (.parameter parameter), value =>
      return (← arguments.setValue parameter (String.ofList value), none)

/-- Adds an operand, of which a command takes only so many. -/
def addOperand (command : Command) (arguments : Arguments) (operand : String) :
    Except Stop Arguments :=
  if arguments.operands.length < command.operands.2 then
    .ok { arguments with operands := arguments.operands ++ [operand] }
  else .error .usage

/-- Adds operands behind a double dash. -/
def addOperands (command : Command) (arguments : Arguments) (operands : List String) :
    Except Stop Arguments :=
  operands.foldlM (addOperand command) arguments

/-- Reads arguments; before a command the first operand ends them.

`waiting` is the parameter whose value comes next. The result has the arguments from the first
operand on where no command is known. -/
def readArguments (command : Option Command) : (waiting : Option Parameter) → List String →
    Arguments → Except Stop (Arguments × List String)
  | some _, [], _ => .error .usage
  | some parameter, argument :: rest, arguments => do
    if isOperand argument then
      readArguments command none rest (← arguments.setValue parameter argument)
    else .error .usage
  | none, [], arguments => .ok (arguments, [])
  | none, argument :: rest, arguments => do
    if isOperand argument then
      match command with
      | none => return (arguments, argument :: rest)
      | some known => readArguments command none rest (← addOperand known arguments argument)
    else match argument.toList with
      | ['-', '-'] =>
        match command with
        | none => .error .usage
        | some known => return (← addOperands known arguments rest, [])
      | '-' :: '-' :: body =>
        let (arguments, waiting) ← readLong command body arguments
        readArguments command waiting rest arguments
      | _ :: body =>
        let (arguments, waiting) ← readLetters command body arguments
        readArguments command waiting rest arguments
      | [] => .error .usage

/-- A command with its arguments, and the arguments before it. -/
structure Invocation where
  /-- The command. -/
  command : Command
  /-- The arguments before the command. -/
  outer : Arguments
  /-- The arguments behind the command. -/
  inner : Arguments
  deriving Repr

namespace Invocation

/-- What asking for help on the given words gives: help on everything, or on one command. -/
def helpStop : List String → Stop
  | [] => .help
  | [word] =>
    if word = "help" ∨ (Command.all.any fun command => command.word == word) then .help
    else .usage
  | _ => .usage

/-- The command that arguments name; it has the operands that it needs. -/
def ofArguments (arguments : List String) : Except Stop Invocation := do
  -- Arguments before the command are read first, and their faults come first.
  let (outer, rest) ← readArguments none none arguments {}
  match rest with
  | [] => .error .usage
  | "help" :: topics => .error (helpStop topics)
  | word :: rest =>
    match Command.all.find? fun command => command.word == word with
    | none => .error .usage
    | some command =>
      let (inner, _) ← readArguments (some command) none rest {}
      if inner.operands.length < command.operands.1 then .error .usage
      else if command = .parse ∧ inner.value? .topic = none then .error .usage
      else return ⟨command, outer, inner⟩

/-- Whether a flag is set before the command or behind it. -/
def hasFlag (invocation : Invocation) (flag : Flag) : Bool :=
  invocation.outer.flags.contains flag || invocation.inner.flags.contains flag

/-- The value of a parameter; one behind the command counts more. -/
def value? (invocation : Invocation) (parameter : Parameter) : Option String :=
  invocation.inner.value? parameter <|> invocation.outer.value? parameter

/-- What the arguments say on top of the settings file. -/
def settingsFlags (invocation : Invocation) : Settings.Flags where
  verbose := invocation.hasFlag .verbose
  level := invocation.value? .logLevel
  jsonLogs := invocation.hasFlag .jsonLogs

/-- The path of the settings file; that of the environment counts less. -/
def configPath? (invocation : Invocation) (environment : Option String) : Option String :=
  invocation.value? .config <|> environment

end Invocation

end Topics.CommandLine
