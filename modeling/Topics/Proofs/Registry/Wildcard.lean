import Topics.Proofs.Definition.BuildOutcome
import Topics.Proofs.Definition.ParseOutcome
import Topics.Proofs.Definition.Selection
import Topics.Proofs.Registry.Canonical

/-! A wildcard is never read as a value. So no text with a wildcard is a topic, and a pattern that
leaves fields open is refused for the leftmost of them. -/

namespace Topics

variable {definition : Definition} {values : FieldMap} {segment : Segment} {token topic : String}
  {segments : List Segment} {parts : List String} {name : String} {registry : Registry}

/-- A wildcard is among the tokens of the text. -/
def HasWildcard (text : String) : Prop :=
  singleWildcard ∈ tokens text ∨ tailWildcard ∈ tokens text

namespace Definition

private theorem ne_wildcard_of_suits (formed : definition.WellFormed)
    (listed : segment ∈ definition.segments) (suits : definition.Suits segment token) :
    token ≠ singleWildcard ∧ token ≠ tailWildcard := by
  cases segment with
  | literal text =>
    -- The token is the literal itself.
    obtain rfl : text = token := suits
    exact formed.literal_ne_wildcard listed
  | placeholder name =>
    obtain ⟨spec, value, -, read⟩ := suits
    exact FieldType.ne_wildcard_of_decode read

/-- A topic that is parsed has no wildcard. -/
theorem WellFormed.not_hasWildcard (formed : definition.WellFormed) {fields : FieldMap}
    (parsed : definition.parse topic = .ok fields) : ¬ HasWildcard topic := by
  -- Each token stands in the place of a segment that it suits.
  have suited := exists_reads_iff.mp ⟨_, formed.parse_eq_ok.mp parsed⟩
  have plain : ∀ token ∈ tokens topic, token ≠ singleWildcard ∧ token ≠ tailWildcard := by
    intro token member
    obtain ⟨segment, listed, suits⟩ := exists_mem_of_forall₂ suited member
    exact ne_wildcard_of_suits formed listed suits
  rintro (single | tail)
  · exact (plain _ single).1 rfl
  · exact (plain _ tail).2 rfl

/-- What is written for a pattern is read up to the leftmost open field, for which the wildcard in
its place is no value. -/
theorem exists_faults_of_open
    (written : List.Forall₂ (definition.Writes values .pattern) segments parts)
    (first : IsFirst (values.get? · = none) (segments.filterMap Segment.name?) name)
    (position : Nat) :
    ∃ cause, definition.Faults position segments parts (.invalidField name cause) := by
  -- The position moves on with each token that is read back.
  induction written generalizing position with
  | nil => cases first.mem
  | @cons segment token segments parts wrote _ ih =>
    cases segment with
    | literal text =>
      obtain ⟨cause, faults⟩ := ih first (position + 1)
      have same : text = token := (writes_literal.mp wrote).symm
      exact ⟨cause, .later same faults⟩
    | placeholder other =>
      obtain ⟨spec, declared, ⟨value, held, encoded⟩ | ⟨opened, -, rfl⟩⟩ :=
        writes_placeholder.mp wrote
      · -- A written value is read back, so the open field is farther on.
        rcases isFirst_cons.mp first with ⟨opened, -⟩ | ⟨-, first⟩
        · cases held.symm.trans opened
        · obtain ⟨cause, faults⟩ := ih first (position + 1)
          have read := FieldType.decode_encode encoded
          exact ⟨cause, .later ⟨spec, value, declared, read⟩ faults⟩
      · -- This is the leftmost open field.
        obtain ⟨cause, refused⟩ := FieldType.exists_decode_singleWildcard spec.type
        rcases isFirst_cons.mp first with ⟨-, rfl⟩ | ⟨filled, -⟩
        · exact ⟨cause, .here (.refused declared refused)⟩
        · exact absurd opened filled

/-- A pattern that leaves fields open is refused as a topic for the leftmost of them. -/
theorem WellFormed.parse_of_open (formed : definition.WellFormed)
    (fits : definition.FitsPartly values)
    (some_open : ∃ name ∈ definition.fieldNames, values.get? name = none) :
    ∃ pattern name cause, definition.build values .pattern = .ok pattern ∧
      IsFirst (values.get? · = none) definition.placeholders name ∧
      definition.parse pattern = .error (.invalidField name cause) := by
  obtain ⟨pattern, built⟩ := formed.build_pattern fits
  -- The declared fields are the placed ones, so some placed field is open.
  rw [← formed.placed] at some_open
  obtain ⟨name, first⟩ := exists_isFirst_iff.mpr some_open
  have written := (build_eq_ok.mp built).2
  have count : definition.segmentCount = (tokens pattern).length := by
    rw [← length_segments]
    exact written.length_eq
  obtain ⟨cause, faults⟩ := exists_faults_of_open written first 0
  exact ⟨pattern, name, cause, built, first, parse_eq_error.mpr (Or.inr ⟨count, faults⟩)⟩

end Definition

/-- A definition that passes its check refuses each text with a wildcard. It refuses a pattern that
leaves fields open for the value of the leftmost of them, which is no mismatch. So no registry
resolves a text with a wildcard. -/
theorem wildcards_refused :
    (∀ definition : Definition, definition.check = .ok () →
      (∀ topic, HasWildcard topic → ∃ error, definition.parse topic = .error error) ∧
      ∀ values, definition.FitsPartly values →
        (∃ name ∈ definition.fieldNames, values.get? name = none) →
        ∃ pattern name cause, definition.build values .pattern = .ok pattern ∧
          IsFirst (values.get? · = none) definition.placeholders name ∧
          definition.parse pattern = .error (.invalidField name cause) ∧
          (TopicError.invalidField name cause).isMismatch = false) ∧
    ∀ catalog registry, Registry.ofCatalog catalog = .ok registry →
      ∀ topic, HasWildcard topic → ∃ error, registry.resolve topic = .error error := by
  refine ⟨fun definition checked => ⟨fun topic wildcard => ?_, fun values fits some_open => ?_⟩,
    fun catalog registry _ topic wildcard => ?_⟩
  · have formed := Definition.check_eq_ok.mp checked
    cases parsed : definition.parse topic with
    | error error => exact ⟨error, rfl⟩
    | ok fields => exact absurd wildcard (formed.not_hasWildcard parsed)
  · have formed := Definition.check_eq_ok.mp checked
    obtain ⟨pattern, name, cause, built, first, refused⟩ := formed.parse_of_open fits some_open
    exact ⟨pattern, name, cause, built, first, refused, rfl⟩
  · cases resolved : registry.resolve topic with
    | error error => exact ⟨error, rfl⟩
    | ok found =>
      -- The registry would have parsed the topic by one of its definitions.
      obtain ⟨listed, parsed⟩ := Registry.parse_of_resolve resolved
      have formed := Registry.wellFormed listed
      exact absurd wildcard (formed.not_hasWildcard parsed)

/-- The pattern of all blocks of one height is refused for its first open field, and neither it nor
the wildcard of the blocks is resolved. -/
theorem wildcards_refused_blocks :
    let high : FieldMap := OrderedMap.empty.insert "height" (.uint 7)
    Builtin.blocks.check = .ok () ∧ Builtin.blocks.FitsPartly high ∧
      Builtin.blocks.build high .pattern = .ok "blocks.*.*.7" ∧
      (∃ cause, Builtin.blocks.parse "blocks.*.*.7" = .error (.invalidField "producer" cause)) ∧
      (∃ error, Builtin.blocks.parse "blocks.>" = .error error) ∧
      (∃ error, Registry.builtin.resolve "blocks.*.*.7" = .error error) ∧
      ∃ error, Registry.builtin.resolve "blocks.>" = .error error := by
  intro high
  have checked : Builtin.blocks.check = .ok () := Definition.check_family (by decide +kernel)
  have fits : Builtin.blocks.FitsPartly high := by decide +kernel
  have written : Builtin.blocks.build high .pattern = .ok "blocks.*.*.7" := by decide +kernel
  have some_open : ∃ name ∈ Builtin.blocks.fieldNames, high.get? name = none :=
    ⟨"producer", by decide +kernel, by decide +kernel⟩
  have single : HasWildcard "blocks.*.*.7" := Or.inl (by decide)
  have tail : HasWildcard "blocks.>" := Or.inr (by decide)
  obtain ⟨refuses, unresolved⟩ := wildcards_refused
  obtain ⟨refused, opens⟩ := refuses _ checked
  have accepted := Registry.ofCatalog_builtin
  refine ⟨checked, fits, written, ?_, refused _ tail, unresolved _ _ accepted _ single,
    unresolved _ _ accepted _ tail⟩
  obtain ⟨pattern, name, cause, built, first, parsed, -⟩ := opens high fits some_open
  cases written.symm.trans built
  -- The producer is placed first, and it is open.
  have placed : Builtin.blocks.placeholders = ["producer", "da_height", "height"] := by
    decide +kernel
  have absent : high.get? "producer" = none := by decide +kernel
  rw [placed, isFirst_cons] at first
  rcases first with ⟨-, rfl⟩ | ⟨filled, -⟩
  · exact ⟨cause, parsed⟩
  · exact absurd absent filled

end Topics
