/-! Why a JSON text is refused. -/

namespace Topics.Json

/-- Why a text is refused; of several faults the first from the left counts. -/
inductive Fault where
  /-- The text breaks the grammar. -/
  | malformed
  /-- The text has a value of another shape than the wanted one. -/
  | mismatched
  /-- The text ends too early. -/
  | truncated
  deriving DecidableEq, Repr

/-- The text of a fault. -/
def Fault.message : Fault → String
  | malformed => "malformed JSON text"
  | mismatched => "unexpected JSON value"
  | truncated => "unexpected end of JSON text"

end Topics.Json
