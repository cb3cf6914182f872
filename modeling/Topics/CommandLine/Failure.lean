import Topics.Error

/-! How a failed command is reported: what failed, and the causes behind it. -/

namespace Topics.CommandLine

/-- A failure with its causes, outermost first. -/
structure Failure where
  /-- What failed. -/
  message : String
  /-- Why it failed, each cause behind the one before. -/
  causes : List String := []
  deriving DecidableEq, Repr

namespace Failure

/-- The failure that an error is. -/
def ofError (error : TopicError) : Failure := ⟨error.message, error.causes⟩

/-- The same failure as the cause of another. -/
def within (failure : Failure) (message : String) : Failure :=
  ⟨message, failure.message :: failure.causes⟩

/-- The whole chain of texts on one line. -/
def chain (failure : Failure) : String :=
  String.intercalate ": " (failure.message :: failure.causes)

/-- A text whose further lines start with the given number of blanks. -/
def hang (width : Nat) (text : String) : String :=
  String.ofList <| text.toList.flatMap fun c =>
    if c = '\n' then c :: List.replicate width ' ' else [c]

/-- Causes on lines of their own, numbered from the given number on. -/
def numbered : Nat → List String → String
  | _, [] => ""
  | n, cause :: rest => "    " ++ toString n ++ ": " ++ hang 7 cause ++ "\n" ++ numbered (n + 1) rest

/-- The report of a failure; several causes are numbered. -/
def report (failure : Failure) : String :=
  "Error: " ++ failure.message ++ "\n" ++
    match failure.causes with
    | [] => ""
    | [cause] => "\nCaused by:\n    " ++ hang 4 cause ++ "\n"
    | causes => "\nCaused by:\n" ++ numbered 0 causes

end Failure

end Topics.CommandLine
