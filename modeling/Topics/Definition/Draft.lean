import Topics.Definition.Build

/-! A topic or pattern that is put together field by field. -/

namespace Topics

/-- A definition with the values chosen so far. -/
structure Draft where
  /-- The family that the topic will belong to. -/
  definition : Definition
  /-- The values chosen so far. -/
  values : FieldMap

namespace Draft

/-- A draft without values. -/
def ofDefinition (definition : Definition) : Draft := ⟨definition, .empty⟩

/-- Chooses a value for a field, whatever was chosen before. -/
def choose (draft : Draft) (field : String) (value : Value) : Draft :=
  { draft with values := draft.values.insert field value }

/-- Chooses a value where there is one. -/
def choose? (draft : Draft) (field : String) (value : Option Value) : Draft :=
  match value with
  | some held => draft.choose field held
  | none => draft

/-- The topic of the draft. -/
def topic (draft : Draft) : Except TopicError String := draft.definition.build draft.values .topic

/-- The pattern of the draft, open where no value was chosen. -/
def pattern (draft : Draft) : Except TopicError String :=
  draft.definition.build draft.values .pattern

end Draft

end Topics
