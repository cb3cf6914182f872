import Topics.Proofs.CommandLine.Assignment
import Topics.Proofs.Definition.ParseOutcome
import Topics.Proofs.Pattern.Sound
import Topics.Proofs.Subscription

/-! Values that were read for a definition, from a topic, from a payload or from assignments, build a
pattern without fault. So a payload is refused for its parameters or not at all. -/

namespace Topics

variable {definition : Definition} {fields values : FieldMap} {mode : BuildMode} {text : String}

namespace Definition

/-- Values that were read for a definition. -/
inductive Decoded (definition : Definition) : FieldMap → Prop where
  /-- They are those of a topic. -/
  | topic {topic : String} {fields : FieldMap} (parsed : definition.parse topic = .ok fields) :
      Decoded definition fields
  /-- They are the fields of a payload. -/
  | payload {payload : Payload} {fields : FieldMap}
      (read : payload.fields definition = .ok fields) : Decoded definition fields
  /-- They are assigned on the command line. -/
  | assignments {assignments : List String} {fields : FieldMap}
      (assigned : CommandLine.assignedFields definition assignments = .ok fields) :
      Decoded definition fields

/-- Values that were read can be written. -/
theorem Decoded.fitsPartly (formed : definition.WellFormed) (decoded : definition.Decoded fields) :
    definition.FitsPartly fields := by
  cases decoded with
  | topic parsed => exact formed.fitsPartly_of_parse parsed
  | payload read => exact Payload.fitsPartly_of_fields read
  | assignments assigned => exact CommandLine.fitsPartly_of_assigned assigned

/-- A literal of a well-formed definition is not empty. -/
theorem WellFormed.literal_ne_empty (formed : definition.WellFormed)
    (member : Segment.literal text ∈ definition.segments) : text ≠ "" := by
  have literal := formed.literals text member
  simp only [isLiteralToken, Bool.and_eq_true, bne_iff_ne, ne_eq] at literal
  exact literal.1.1.1

/-- No token of what is built is empty. -/
theorem WellFormed.empty_not_mem (formed : definition.WellFormed)
    (built : definition.build values mode = .ok text) : "" ∉ tokens text := by
  -- Neither a literal, nor a written value, nor an open field is empty.
  have full : ∀ token ∈ tokens text, token ≠ "" :=
    satisfies_of_build built (fun _ listed => formed.literal_ne_empty listed)
      FieldType.encode_ne_empty (by decide)
  exact fun member => full _ member rfl

/-- What is built has no fault as a pattern. -/
theorem WellFormed.patternFault?_of_build (formed : definition.WellFormed)
    (built : definition.build values mode = .ok text) : patternFault? text = none := by
  have full : "" ∉ tokens text := formed.empty_not_mem built
  have closed : tailWildcard ∉ tokens text := formed.tailWildcard_not_mem built
  -- There is no tail at all, so nothing stands behind one.
  have last : TailsLast (tokens text) :=
    fun member => closed ((List.dropLast_sublist _).mem member)
  exact patternFault?_eq_none.mpr ⟨full, last⟩

/-- The wildcard of a well-formed definition has no fault as a pattern. -/
theorem WellFormed.patternFault?_wildcard (formed : definition.WellFormed) :
    patternFault? definition.wildcard = none := by
  rw [patternFault?_eq_none, TailsLast, formed.tokens_wildcard, List.dropLast_concat]
  constructor
  · intro member
    rcases List.mem_append.mp member with literal | tail
    · exact formed.literal_ne_empty (mem_of_mem_literalRun literal) rfl
    · exact absurd (List.mem_singleton.mp tail) (by decide)
  · -- In front of the tail stand literals only.
    intro member
    exact (formed.literal_ne_wildcard (mem_of_mem_literalRun member)).2 rfl

/-- A segment of a pattern is written as the wildcard of one token exactly where it is the
placeholder of a field without a value. -/
theorem WellFormed.writes_singleWildcard_iff (formed : definition.WellFormed) {segment : Segment}
    {token : String} (listed : segment ∈ definition.segments)
    (wrote : definition.Writes values .pattern segment token) :
    token = singleWildcard ↔ ∃ name, segment = .placeholder name ∧ name ∉ values.keys := by
  cases segment with
  | literal literal =>
    have plain : token ≠ singleWildcard := by
      rw [writes_literal.mp wrote]
      exact (formed.literal_ne_wildcard listed).1
    simp [plain]
  | placeholder name =>
    have absent : values.get? name = none ↔ name ∉ values.keys := lookupEntry_eq_none
    simp only [Segment.placeholder.injEq, exists_eq_left', ← absent]
    obtain ⟨spec, -, ⟨value, held, encoded⟩ | ⟨opened, -, rfl⟩⟩ := writes_placeholder.mp wrote
    · -- A written value is no wildcard.
      simp [FieldType.encode_ne_singleWildcard encoded, held]
    · simp [opened]

/-- The tokens of a pattern for some values: one for each segment, with the wildcard of one token
exactly in the places of the fields that have no value. -/
structure Opens (definition : Definition) (values : FieldMap) (pattern : String) : Prop where
  /-- There are as many tokens as the format has. -/
  count : (tokens pattern).length = definition.segmentCount
  /-- A token is open exactly where the field has no value. -/
  opened : ∀ position segment token, definition.Places pattern position segment token →
    (token = singleWildcard ↔ ∃ name, segment = .placeholder name ∧ name ∉ values.keys)

/-- A pattern that was built leaves open the fields that have no value. -/
theorem WellFormed.opens_of_build (formed : definition.WellFormed)
    (built : definition.build values .pattern = .ok text) : definition.Opens values text := by
  obtain ⟨count, inPlace⟩ := forall₂_iff_inPlace.mp (build_eq_ok.mp built).2
  refine ⟨by rw [← count, length_segments], fun position segment token places => ?_⟩
  have wrote := inPlace position segment token places.1 places.2
  exact formed.writes_singleWildcard_iff (List.mem_of_getElem? places.1) wrote

end Definition

/-- A payload for a definition of the registry is refused exactly for its parameters. -/
theorem Payload.pattern_eq_error {payload : Payload} {registry : Registry} {error : TopicError}
    (listed : definition ∈ registry.catalog.definitions) (asks : payload.subject = definition.id) :
    payload.pattern registry = .error error ↔ payload.fields definition = .error error := by
  have formed := Registry.wellFormed listed
  cases read : payload.fields definition with
  | ok fields =>
    -- The fields give a pattern, or the wildcard where there are none.
    obtain ⟨text, asked⟩ := exists_pattern formed (fitsPartly_of_fields read)
    simp [(pattern_eq_ok listed asks).mpr ⟨fields, read, asked⟩]
  | error cause =>
    have stopped : payload.pattern registry = .error cause := by
      simp only [Payload.pattern, definition_of_asks listed asks, bind, Except.bind, read]
    simp [stopped]

/-- Values that were read for a definition that passes its check build a pattern without fault, with
one token for each of the format and a wildcard exactly in the places of the fields without a value.
The wildcard of the definition has no fault either, so a payload for a definition of an accepted
catalog is refused exactly for its parameters. -/
theorem Definition.build_decoded (checked : definition.check = .ok ()) :
    (∀ fields, definition.Decoded fields → ∃ pattern compiled,
      definition.build fields .pattern = .ok pattern ∧ definition.Opens fields pattern ∧
        Pattern.ofText pattern = .ok compiled) ∧
    (∃ compiled, Pattern.ofText definition.wildcard = .ok compiled) ∧
    ∀ catalog registry, Registry.ofCatalog catalog = .ok registry →
      definition ∈ catalog.definitions → ∀ payload : Payload, payload.subject = definition.id →
        ∀ error, payload.pattern registry = .error error ↔
          payload.fields definition = .error error := by
  have formed := check_eq_ok.mp checked
  refine ⟨fun fields decoded => ?_, ?_, ?_⟩
  · obtain ⟨pattern, built⟩ := formed.build_pattern (decoded.fitsPartly formed)
    have sound := formed.patternFault?_of_build built
    obtain ⟨compiled, made⟩ := Pattern.exists_ofText_iff.mpr sound
    exact ⟨pattern, compiled, built, formed.opens_of_build built, made⟩
  · exact Pattern.exists_ofText_iff.mpr formed.patternFault?_wildcard
  · intro catalog registry accepted listed payload asks error
    obtain rfl := Registry.ofCatalog_eq_ok.mp accepted
    exact Payload.pattern_eq_error listed asks

/-- The height of a block builds a pattern with two open fields, whether it comes from a payload or
from an assignment, and all values of a block's topic build a pattern without open fields. A payload
with another text for the height is refused for this parameter. -/
theorem Definition.build_decoded_blocks :
    let topic := "blocks.0xabababababababababababababababababababababababababababababababab.0.7"
    let full : FieldMap := ((OrderedMap.empty.insert "producer" (.ofIdentifier
      (.replicate 0xab))).insert "da_height" (.uint 0)).insert "height" (.uint 7)
    let high : FieldMap := OrderedMap.empty.insert "height" (.uint 42)
    let payload : Payload := ⟨"blocks", .object [("height", .string "42"), ("producer", .null)]⟩
    let other : Payload := ⟨"blocks", .object [("height", .string "042")]⟩
    Builtin.blocks.check = .ok () ∧ payload.fields Builtin.blocks = .ok high ∧
      CommandLine.assignedFields Builtin.blocks ["height=42"] = .ok high ∧
      Builtin.blocks.build high .pattern = .ok "blocks.*.*.42" ∧
      Builtin.blocks.Opens high "blocks.*.*.42" ∧
      Builtin.blocks.parse topic = .ok full ∧
      Builtin.blocks.build full .pattern = .ok topic ∧ Builtin.blocks.Opens full topic ∧
      (∃ compiled, Pattern.ofText "blocks.>" = .ok compiled) ∧
      other.pattern .builtin = .error (.invalidField "height" (.leadingZero "042")) := by
  intro topic full high payload other
  have checked : Builtin.blocks.check = .ok () := check_family (by decide +kernel)
  have read : payload.fields Builtin.blocks = .ok high := by decide +kernel
  have assigned : CommandLine.assignedFields Builtin.blocks ["height=42"] = .ok high := by
    decide +kernel
  have parsed : Builtin.blocks.parse topic = .ok full := by decide +kernel
  have written : Builtin.blocks.build high .pattern = .ok "blocks.*.*.42" := by decide +kernel
  have written' : Builtin.blocks.build full .pattern = .ok topic := by decide +kernel
  have refused : other.fields Builtin.blocks =
      .error (.invalidField "height" (.leadingZero "042")) := by
    decide +kernel
  obtain ⟨builds, every, asks⟩ := build_decoded checked
  have opens : Builtin.blocks.Opens high "blocks.*.*.42" := by
    obtain ⟨pattern, compiled, built, opens, -⟩ := builds high (.assignments assigned)
    cases written.symm.trans built
    exact opens
  have opens' : Builtin.blocks.Opens full topic := by
    obtain ⟨pattern, compiled, built, opens, -⟩ := builds full (.topic parsed)
    cases written'.symm.trans built
    exact opens
  have accepted := Registry.ofCatalog_builtin
  exact ⟨checked, read, assigned, written, opens, parsed, written', opens', every,
    (asks _ _ accepted Catalog.blocks_listed other rfl _).mpr refused⟩

end Topics
