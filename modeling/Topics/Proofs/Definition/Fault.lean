import Topics.Proofs.Definition.Parse

/-! A topic that cannot be read is refused for its number of tokens or for the leftmost token that
does not fit. -/

namespace Topics.Definition

/-- The token can stand in the place of the segment. -/
def Suits (definition : Definition) : Segment → String → Prop
  | .literal text, token => text = token
  | .placeholder name, token =>
    ∃ spec value, definition.field? name = some spec ∧ spec.type.decode token = .ok value

/-- Why the token at a position cannot stand in the place of the segment. -/
inductive Misfits (definition : Definition) (position : Nat) :
    Segment → String → TopicError → Prop where
  /-- A literal stands for itself only. -/
  | literal {text token : String} (other : text ≠ token) :
      Misfits definition position (.literal text) token (.literalMismatch position text token)
  /-- There is no type to read the token in. -/
  | undeclared {name token : String} (absent : definition.field? name = none) :
      Misfits definition position (.placeholder name) token (.unknownField definition.id name)
  /-- The token is no value of the field. -/
  | refused {name token : String} {spec : FieldSpec} {cause : FieldError}
      (declared : definition.field? name = some spec)
      (refused : spec.type.decode token = .error cause) :
      Misfits definition position (.placeholder name) token (.invalidField name cause)

/-- The leftmost token that does not fit, read beside the segments from a position on, is the cause
of the error. -/
inductive Faults (definition : Definition) :
    Nat → List Segment → List String → TopicError → Prop where
  /-- The first token does not fit. -/
  | here {position : Nat} {segment : Segment} {segments : List Segment} {token : String}
      {parts : List String} {error : TopicError}
      (misfits : Misfits definition position segment token error) :
      Faults definition position (segment :: segments) (token :: parts) error
  /-- The first token fits, and a later one does not. -/
  | later {position : Nat} {segment : Segment} {segments : List Segment} {token : String}
      {parts : List String} {error : TopicError} (suits : definition.Suits segment token)
      (rest : Faults definition (position + 1) segments parts error) :
      Faults definition position (segment :: segments) (token :: parts) error

variable {definition : Definition} {segment : Segment} {segments : List Segment} {token : String}
  {parts : List String} {position : Nat} {values : FieldMap} {error : TopicError}

private theorem faults_cons :
    definition.Faults position (segment :: segments) (token :: parts) error ↔
      definition.Misfits position segment token error ∨
        (definition.Suits segment token ∧
          definition.Faults (position + 1) segments parts error) := by
  -- The cause lies with the first token, or behind it where it fits.
  constructor
  · intro faults
    cases faults with
    | here misfits => exact Or.inl misfits
    | later suits rest => exact Or.inr ⟨suits, rest⟩
  · rintro (misfits | ⟨suits, rest⟩)
    · exact .here misfits
    · exact .later suits rest

private theorem misfits_literal {text : String} :
    definition.Misfits position (.literal text) token error ↔
      text ≠ token ∧ error = .literalMismatch position text token := by
  -- In the place of a literal only another token is at fault.
  constructor
  · intro misfits
    cases misfits with
    | literal other => exact ⟨other, rfl⟩
  · rintro ⟨other, rfl⟩
    exact .literal other

private theorem misfits_placeholder {name : String} :
    definition.Misfits position (.placeholder name) token error ↔
      (definition.field? name = none ∧ error = .unknownField definition.id name) ∨
      ∃ spec cause, definition.field? name = some spec ∧
        spec.type.decode token = .error cause ∧ error = .invalidField name cause := by
  -- In the place of a field the declaration is missing, or the token is no value.
  constructor
  · intro misfits
    cases misfits with
    | undeclared absent => exact Or.inl ⟨absent, rfl⟩
    | refused declared refused => exact Or.inr ⟨_, _, declared, refused, rfl⟩
  · rintro (⟨absent, rfl⟩ | ⟨spec, cause, declared, refused, rfl⟩)
    · exact .undeclared absent
    · exact .refused declared refused

/-- Pairs of segments and tokens are refused exactly for the leftmost token that does not fit. -/
theorem readTokens_eq_error (paired : segments.length = parts.length) :
    definition.readTokens position (segments.zip parts) values = .error error ↔
      definition.Faults position segments parts error := by
  -- The position and the values change with each pair, so they are kept general.
  induction segments generalizing parts position values with
  | nil =>
    simp only [List.zip_nil_left, readTokens, reduceCtorEq, false_iff]
    intro faults
    cases faults
  | cons segment rest ih =>
    obtain ⟨token, more, rfl⟩ := List.exists_cons_of_length_eq_add_one paired.symm
    replace paired : rest.length = more.length := by simpa using paired
    rw [List.zip_cons_cons, faults_cons]
    cases segment with
    | literal text =>
      rw [misfits_literal]
      by_cases same : text = token <;> simp [readTokens, Suits, same, ih paired, eq_comm]
    | placeholder name =>
      rw [misfits_placeholder]
      cases declared : definition.field? name with
      | none => simp [readTokens, Suits, declared, eq_comm]
      | some spec =>
        cases read : spec.type.decode token <;>
          simp [readTokens, Suits, declared, read, ih paired, eq_comm]

/-- A topic is refused for its number of tokens, or for the leftmost token that does not fit. -/
theorem parse_eq_error {topic : String} :
    definition.parse topic = .error error ↔
      (definition.segmentCount ≠ (tokens topic).length ∧
        error = .segmentCount definition.segmentCount (tokens topic).length) ∨
      (definition.segmentCount = (tokens topic).length ∧
        definition.Faults 0 definition.segments (tokens topic) error) := by
  by_cases paired : definition.segmentCount = (tokens topic).length
  · rw [parse, if_neg (not_not_intro paired),
      readTokens_eq_error (definition.length_segments.trans paired)]
    simp [paired]
  · simp [parse, paired, eq_comm]

end Topics.Definition
