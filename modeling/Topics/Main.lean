import Topics.CommandLine.Run

/-! The program: arguments, one environment variable and at most one file in, an outcome out. -/

namespace Topics.CommandLine

/-- The environment variable that holds the path of the settings file. -/
def configVariable : String := "SUBJECTKIT_CONFIG"

/-- The fault that an error stands for; codes below zero stand for those above it. -/
def readFault (error : IO.Error) : ReadFault :=
  let code? : Option UInt32 := match error with
    | .noFileOrDirectory _ code _ => some code
    | .permissionDenied _ code _ => some code
    | .inappropriateType _ code _ => some code
    | .invalidArgument _ code _ => some code
    | .noSuchThing _ code _ => some code
    | .otherError code _ => some code
    | _ => none
  match code? with
  | some code => .ofCode code.toInt32.toInt.natAbs
  | none => .notText

/-- The text of a file, or why it cannot be read. -/
def readFile (path : String) : IO (Except ReadFault String) := do
  try return .ok (← IO.FS.readFile path)
  catch error => return .error (readFault error)

/-- The path of the settings file that arguments and environment name. -/
def settingsPath? (arguments : List String) (environment : Option String) : Option String :=
  match Invocation.ofArguments arguments with
  | .ok invocation => invocation.configPath? environment
  | .error _ => none

end Topics.CommandLine

open Topics.CommandLine in
/-- Runs the program and prints what it leaves behind. -/
def main (arguments : List String) : IO UInt32 := do
  let environment ← IO.getEnv configVariable
  let content ← match settingsPath? arguments environment with
    | some path => readFile path
    | none => pure (.error .missing)
  let outcome := respond arguments environment fun _ => content
  (← IO.getStdout).putStr outcome.stdout
  (← IO.getStderr).putStr outcome.stderr
  return UInt32.ofNat outcome.code
