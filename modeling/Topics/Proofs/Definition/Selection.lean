import Topics.Proofs.Definition.Build
import Topics.Proofs.Pattern

/-! A pattern built from some values selects exactly the topics built from values that agree with
them. -/

namespace Topics.Definition

variable {definition : Definition} {chosen values : FieldMap}

/-- A literal of a well-formed definition is no wildcard. -/
theorem WellFormed.literal_ne_wildcard (formed : definition.WellFormed) {text : String}
    (member : Segment.literal text ∈ definition.segments) :
    text ≠ singleWildcard ∧ text ≠ tailWildcard := by
  have literal := formed.literals text member
  simp only [isLiteralToken, Bool.and_eq_true, bne_iff_ne, ne_eq] at literal
  exact ⟨literal.1.1.2, literal.1.2⟩

/-- No token of what is built is a tail wildcard. -/
theorem WellFormed.tailWildcard_not_mem (formed : definition.WellFormed) {mode : BuildMode}
    {text : String} (built : definition.build values mode = .ok text) :
    tailWildcard ∉ tokens text := by
  -- Neither a literal, nor a written value, nor an open field is the wildcard of a tail.
  have plain : ∀ token ∈ tokens text, token ≠ tailWildcard :=
    satisfies_of_build built (fun _ listed => (formed.literal_ne_wildcard listed).2)
      FieldType.encode_ne_tailWildcard (by decide)
  exact fun member => plain _ member rfl

/-- What is written for a segment of a pattern takes what is written for it in a topic exactly when
the field, if there is one, is open in the pattern or has the same value in both. -/
theorem takes_iff {segment : Segment} {part token : String}
    (pattern : definition.Writes chosen .pattern segment part)
    (topic : definition.Writes values .topic segment token) :
    Takes part token ↔ ∀ name ∈ segment.name?, ∀ value, chosen.get? name = some value →
      values.get? name = some value := by
  cases segment with
  | literal text =>
    -- A literal is the same token in both.
    rw [writes_literal] at pattern topic
    simp [Segment.name?, Takes, pattern, topic]
  | placeholder name =>
    obtain ⟨spec, held, declared, found, encoded⟩ := writes_topic.mp topic
    obtain ⟨other, again, choice⟩ := writes_placeholder.mp pattern
    rw [declared, Option.some.injEq] at again
    subst again
    simp only [Segment.name?, Option.mem_some_iff, forall_eq', found]
    rcases choice with ⟨value, chose, wrote⟩ | ⟨opened, -, rfl⟩
    · -- A written value is no wildcard, so the tokens are equal exactly when the values are.
      simp only [Takes, FieldType.encode_ne_singleWildcard wrote, false_or, chose,
        Option.some.injEq, forall_eq']
      constructor
      · rintro rfl
        exact FieldType.encode_injective encoded wrote
      · rintro rfl
        rw [wrote, Except.ok.injEq] at encoded
        exact encoded
    · simp [Takes, opened]

/-- The tokens of a pattern take those of a topic exactly when the placed fields agree. -/
theorem forall₂_takes_iff {segments : List Segment} {parts found : List String}
    (pattern : List.Forall₂ (definition.Writes chosen .pattern) segments parts)
    (topic : List.Forall₂ (definition.Writes values .topic) segments found) :
    List.Forall₂ Takes parts found ↔
      ∀ name ∈ segments.filterMap Segment.name?, ∀ value, chosen.get? name = some value →
        values.get? name = some value := by
  -- The segments are walked through once, beside the tokens of both.
  induction pattern generalizing found with
  | nil =>
    cases topic
    simp
  | @cons segment part segments parts wrote _ ih =>
    cases topic with
    | cons wrote' topic =>
      rw [List.forall₂_cons, ih topic, takes_iff wrote wrote']
      cases segment <;> simp [Segment.name?]

/-- A pattern built from values that fit selects a topic exactly when the topic's values agree with
each value of the pattern. -/
theorem selects_build (checked : definition.check = .ok ()) (full : definition.Fits values)
    (partly : definition.FitsPartly chosen) :
    ∃ pattern topic, definition.build chosen .pattern = .ok pattern ∧
      definition.build values .topic = .ok topic ∧
      (selects pattern topic = true ↔
        ∀ name value, chosen.get? name = some value → values.get? name = some value) := by
  have formed := check_eq_ok.mp checked
  obtain ⟨pattern, patternBuilt⟩ := formed.build_pattern partly
  obtain ⟨topic, topicBuilt⟩ := formed.build_topic full
  refine ⟨pattern, topic, patternBuilt, topicBuilt, ?_⟩
  -- Both have one token for each segment, so the tokens are compared one by one.
  rw [selects, selectsTokens_iff_forall₂ (formed.tailWildcard_not_mem patternBuilt),
    forall₂_takes_iff (build_eq_ok.mp patternBuilt).2 (build_eq_ok.mp topicBuilt).2]
  constructor
  · -- A name that has a value is declared, and declared names are placed.
    intro agree name value chose
    refine agree name ?_ value chose
    have listed : name ∈ chosen.keys := (chosen.get?_isSome name).mp (by simp [chose])
    have placed : name ∈ definition.placeholders := by
      rw [formed.placed]
      exact partly.declared name listed
    exact placed
  · exact fun agree name _ value chose => agree name value chose

/-- A pattern with the producer of a block selects the block's topic, and a pattern with the same
producer and another height does not. -/
theorem selects_build_block :
    let producer : FieldMap := OrderedMap.empty.insert "producer" (.ofIdentifier (.replicate 0xab))
    let elsewhere := producer.insert "height" (.uint 7)
    Builtin.blocks.check = .ok () ∧ Builtin.blocks.Fits blockValues ∧
      Builtin.blocks.FitsPartly producer ∧ Builtin.blocks.FitsPartly elsewhere ∧
      (∃ pattern topic, Builtin.blocks.build producer .pattern = .ok pattern ∧
        Builtin.blocks.build blockValues .topic = .ok topic ∧ selects pattern topic = true) ∧
      ∃ pattern topic, Builtin.blocks.build elsewhere .pattern = .ok pattern ∧
        Builtin.blocks.build blockValues .topic = .ok topic ∧ selects pattern topic = false := by
  intro producer elsewhere
  have checked : Builtin.blocks.check = .ok () := check_family (by decide +kernel)
  have fits : Builtin.blocks.Fits blockValues := by decide +kernel
  have part : Builtin.blocks.FitsPartly producer := by decide +kernel
  have other : Builtin.blocks.FitsPartly elsewhere := by decide +kernel
  refine ⟨checked, fits, part, other, ?_, ?_⟩
  · obtain ⟨pattern, topic, built, builtTopic, selected⟩ := selects_build checked fits part
    refine ⟨pattern, topic, built, builtTopic, selected.mpr fun name value chose => ?_⟩
    have each : ∀ entry ∈ producer.entries, blockValues.get? entry.1 = some entry.2 := by
      decide +kernel
    exact each (name, value) ((producer.get?_eq_some).mp chose)
  · obtain ⟨pattern, topic, built, builtTopic, selected⟩ := selects_build checked fits other
    refine ⟨pattern, topic, built, builtTopic, ?_⟩
    rw [← Bool.not_eq_true, selected]
    intro agree
    exact absurd (agree "height" (.uint 7) (by decide +kernel)) (by decide +kernel)

end Topics.Definition
