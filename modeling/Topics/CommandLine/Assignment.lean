import Topics.CommandLine.Failure
import Topics.Definition.Basic
import Topics.Field.Codec

/-! Fields are set on the command line by assignments `name=value`. -/

namespace Topics.CommandLine

/-- Why an assignment is refused. -/
inductive AssignmentError where
  /-- There is no equals sign. -/
  | noValue (assignment : String)
  /-- The field is not declared. -/
  | unknownField (id name : String)
  /-- The text is no value of the field. -/
  | invalidValue (name type : String) (cause : FieldError)
  deriving DecidableEq, Repr

/-- The failure that a refused assignment is. -/
def AssignmentError.failure : AssignmentError → Failure
  | noValue assignment => ⟨s!"expected name=value, got '{assignment}'", []⟩
  | unknownField id name => ⟨s!"'{id}' has no field '{name}'", []⟩
  | invalidValue name type cause => ⟨s!"invalid value for '{name}' ({type})", [cause.message]⟩

/-- The texts before and behind the first equals sign. -/
def splitAssignment? (assignment : String) : Option (String × String) :=
  match assignment.toList.span (· ≠ '=') with
  | (_, []) => none
  | (name, _ :: value) => some (String.ofList name, String.ofList value)

/-- The field that an assignment sets, with its value. -/
def readAssignment (definition : Definition) (assignment : String) :
    Except AssignmentError (String × Value) :=
  match splitAssignment? assignment with
  | none => .error (.noValue assignment)
  | some (name, text) =>
    match definition.field? name with
    | none => .error (.unknownField definition.id name)
    | some spec =>
      match spec.type.decode text with
      | .error cause => .error (.invalidValue name spec.type.name cause)
      | .ok value => .ok (name, value)

/-- Adds the values of assignments in order; the last one for a field counts. -/
def readAssignments (definition : Definition) :
    List String → FieldMap → Except AssignmentError FieldMap
  | [], fields => .ok fields
  | assignment :: rest, fields =>
    match readAssignment definition assignment with
    | .error error => .error error
    | .ok (name, value) => readAssignments definition rest (fields.insert name value)

/-- The fields that assignments set. -/
def assignedFields (definition : Definition) (assignments : List String) :
    Except AssignmentError FieldMap :=
  readAssignments definition assignments .empty

end Topics.CommandLine
