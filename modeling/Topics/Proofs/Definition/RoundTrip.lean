import Topics.Proofs.Definition.Build
import Topics.Proofs.Definition.Parse

/-! Building and parsing are inverse: values come back from their topic, and a topic comes back
from its values in the canonical spelling of its identifiers. -/

namespace Topics.Definition

variable {definition : Definition} {values fields : FieldMap} {topic : String}
  {segments : List Segment} {parts : List String} {entries : List (String × Value)}

/-- Tokens that were written for segments are read back into the values written. -/
theorem reads_of_written
    (written : List.Forall₂ (definition.Writes values .topic) segments parts) :
    ∃ entries, definition.Reads segments parts entries ∧
      ∀ name value, (name, value) ∈ entries → values.get? name = some value := by
  induction written with
  | nil => exact ⟨[], .nil, by simp⟩
  | @cons segment token segments parts wrote _ ih =>
    obtain ⟨entries, reads, held⟩ := ih
    cases segment with
    | literal text =>
      obtain rfl := writes_literal.mp wrote
      exact ⟨entries, .literal _ reads, held⟩
    | placeholder name =>
      -- A value's token is read as this value.
      obtain ⟨spec, value, declared, found, encoded⟩ := writes_topic.mp wrote
      refine ⟨(name, value) :: entries,
        .placeholder declared (FieldType.decode_encode encoded) reads, fun other inner member => ?_⟩
      rcases List.mem_cons.mp member with same | later
      · cases same
        exact found
      · exact held other inner later

/-- A topic that was built is read back into the values that it was built from, in the order in
which the fields are declared. -/
theorem WellFormed.parse_of_build (formed : definition.WellFormed)
    (built : definition.build values .topic = .ok topic) :
    ∃ fields, definition.parse topic = .ok fields ∧ fields.keys = definition.fieldNames ∧
      ∀ name, fields.get? name = values.get? name := by
  -- The tokens of the topic are read into values in the order of the format.
  obtain ⟨names, written⟩ := build_eq_ok.mp built
  obtain ⟨entries, reads, held⟩ := reads_of_written written
  obtain ⟨fields, parsed, rfl⟩ := formed.parse_of_reads reads
  have listed := formed.keys_of_parse parsed
  refine ⟨fields, parsed, listed, fun name => ?_⟩
  cases found : fields.get? name with
  | some value => exact (held name value ((fields.get?_eq_some).mp found)).symm
  | none =>
    -- A name that is not read is not declared, so nothing was written under it.
    have absent : name ∉ definition.fieldNames := by
      rw [← listed]
      exact lookupEntry_eq_none.mp found
    exact (lookupEntry_eq_none.mpr fun member => absent (names name member)).symm

/-- The values that are read back from a topic build it again. -/
theorem WellFormed.rebuild (formed : definition.WellFormed)
    (built : definition.build values .topic = .ok topic) :
    ∃ fields, definition.parse topic = .ok fields ∧ fields.keys = definition.fieldNames ∧
      (∀ name, fields.get? name = values.get? name) ∧
      definition.build fields .topic = .ok topic := by
  obtain ⟨fields, parsed, names, same⟩ := formed.parse_of_build built
  exact ⟨fields, parsed, names, same, build_congr (fun name => (same name).symm) built⟩

/-- What is built from values without open fields is parsed into the same values, listed in the
order in which the fields are declared. -/
theorem parse_build (checked : definition.check = .ok ()) (fits : definition.Fits values) :
    ∃ topic fields, definition.build values .topic = .ok topic ∧
      definition.parse topic = .ok fields ∧ fields.keys = definition.fieldNames ∧
      ∀ name, fields.get? name = values.get? name := by
  have formed := check_eq_ok.mp checked
  -- Values that fit have a topic, and what was built is parsed.
  obtain ⟨topic, built⟩ := formed.build_topic fits
  obtain ⟨fields, parsed, names, same⟩ := formed.parse_of_build built
  exact ⟨topic, fields, built, parsed, names, same⟩

/-- A block's values come back from its topic, in the order in which the fields are declared. -/
theorem parse_build_block :
    Builtin.blocks.check = .ok () ∧ Builtin.blocks.Fits blockValues ∧
      ∃ topic fields, Builtin.blocks.build blockValues .topic = .ok topic ∧
        Builtin.blocks.parse topic = .ok fields ∧
        fields.keys = ["producer", "da_height", "height"] ∧
        ∀ name, fields.get? name = blockValues.get? name := by
  have checked : Builtin.blocks.check = .ok () := check_family (by decide +kernel)
  have fits : Builtin.blocks.Fits blockValues := by decide +kernel
  exact ⟨checked, fits, parse_build checked fits⟩

/-- The canonical spelling of the token in a segment's place. -/
def canonicalToken (definition : Definition) : Segment → String → String
  | .literal _, token => token
  | .placeholder name, token =>
    match definition.field? name with
    | some spec => spec.type.canonicalToken token
    | none => token

/-- A topic with the letters of its identifiers in lower case. -/
def canonical (definition : Definition) (topic : String) : String :=
  -- Tokens at other places are left as they are.
  joinTokens (List.zipWith definition.canonicalToken definition.segments (tokens topic))

/-- Values that were read are written as the tokens that they were read from, spelled
canonically. -/
theorem Reads.written (reads : definition.Reads segments parts entries)
    (held : ∀ name value, (name, value) ∈ entries → values.get? name = some value) :
    List.Forall₂ (definition.Writes values .topic) segments
      (List.zipWith definition.canonicalToken segments parts) := by
  induction reads with
  | nil => exact .nil
  | literal text rest ih => exact .cons rfl (ih held)
  | @placeholder segments parts entries name token spec value declared read rest ih =>
    -- The value read for a placeholder is the one that is written for it.
    refine .cons ?_ (ih fun other inner member => held other inner (by simp [member]))
    simp only [canonicalToken, declared]
    exact writes_topic.mpr
      ⟨spec, value, declared, held name value (by simp), FieldType.encode_of_decode read⟩

/-- The values of a topic are written as its tokens in their canonical spelling. -/
theorem WellFormed.written_of_parse (formed : definition.WellFormed)
    (parsed : definition.parse topic = .ok fields) :
    List.Forall₂ (definition.Writes fields .topic) definition.segments
      (List.zipWith definition.canonicalToken definition.segments (tokens topic)) :=
  (formed.parse_eq_ok.mp parsed).written fun _ _ member => (fields.get?_eq_some).mpr member

/-- The values of a topic build the topic in its canonical spelling. -/
theorem WellFormed.build_of_parse (formed : definition.WellFormed)
    (parsed : definition.parse topic = .ok fields) :
    definition.build fields .topic = .ok (definition.canonical topic) :=
  build_joinTokens (fun _ member => formed.keys_of_parse parsed ▸ member)
    (formed.written_of_parse parsed)

/-- The values of a topic fit. -/
theorem WellFormed.fitsPartly_of_parse (formed : definition.WellFormed)
    (parsed : definition.parse topic = .ok fields) : definition.FitsPartly fields :=
  formed.fitsPartly_of_build (formed.build_of_parse parsed)

/-- The tokens of a topic in its canonical spelling are its tokens in theirs. -/
theorem WellFormed.tokens_canonical (formed : definition.WellFormed)
    (parsed : definition.parse topic = .ok fields) :
    tokens (definition.canonical topic) =
      List.zipWith definition.canonicalToken definition.segments (tokens topic) := by
  -- Both sides are what the segments are written as.
  have joined := writeSegments_eq_ok.mpr (build_eq_ok.mp (formed.build_of_parse parsed)).2
  have direct := writeSegments_eq_ok.mpr (formed.written_of_parse parsed)
  rw [joined] at direct
  injection direct

/-- Tokens that are read are spelled canonically exactly when no identifier among them has a digit
in upper case. -/
theorem Reads.canonical_iff (reads : definition.Reads segments parts entries) :
    List.zipWith definition.canonicalToken segments parts = parts ↔
      ∀ name token spec, (Segment.placeholder name, token) ∈ segments.zip parts →
        definition.field? name = some spec → spec.type.isIdentifier = true →
          ∀ c ∈ token.toList, Hex.isUpperDigit c = false := by
  induction reads with
  | nil => simp
  | literal text rest ih => simp [canonicalToken, ih]
  | @placeholder segments parts entries name token spec value declared read rest ih =>
    -- The first token is canonical by itself, and so are the others.
    simp only [List.zipWith_cons_cons, List.zip_cons_cons, List.cons.injEq, List.mem_cons, ih,
      canonicalToken, declared, FieldType.canonicalToken_eq_self_iff read]
    constructor
    · rintro ⟨first, others⟩ other otherToken otherSpec (same | later) found
      · cases same
        rw [declared, Option.some.injEq] at found
        exact found ▸ first
      · exact others other otherToken otherSpec later found
    · intro each
      exact ⟨each name token spec (Or.inl rfl) declared,
        fun other otherToken otherSpec later => each other otherToken otherSpec (Or.inr later)⟩

/-- The values of a topic build the topic with its identifiers in lower case and all other tokens
unchanged, which is parsed into the same values; only digits in upper case make a difference. -/
theorem build_parse (checked : definition.check = .ok ())
    (parsed : definition.parse topic = .ok fields) :
    definition.build fields .topic = .ok (definition.canonical topic) ∧
      definition.parse (definition.canonical topic) = .ok fields ∧
      (definition.canonical topic = topic ↔
        ∀ name token spec,
          (Segment.placeholder name, token) ∈ definition.segments.zip (tokens topic) →
          definition.field? name = some spec → spec.type.isIdentifier = true →
            ∀ c ∈ token.toList, Hex.isUpperDigit c = false) := by
  have formed := check_eq_ok.mp checked
  have built := formed.build_of_parse parsed
  refine ⟨built, ?_, ?_⟩
  · -- The values read back have the same names and look-ups, so they are the same.
    obtain ⟨back, again, names, same⟩ := formed.parse_of_build built
    rw [again, OrderedMap.eq_of_get? (names.trans (formed.keys_of_parse parsed).symm) same]
  · -- A text is known by its tokens, so both can be compared token by token.
    rw [← (formed.parse_eq_ok.mp parsed).canonical_iff, ← formed.tokens_canonical parsed]
    constructor
    · intro same
      rw [same]
    · intro same
      rw [← joinTokens_tokens (definition.canonical topic), same, joinTokens_tokens]

/-- A block's topic in capitals is parsed, and its values build the topic in lower case. -/
theorem build_parse_block :
    let topic := "blocks.0xABABABABABABABABABABABABABABABABABABABABABABABABABABABABABABABab.0.7"
    let lower := "blocks.0xabababababababababababababababababababababababababababababababab.0.7"
    Builtin.blocks.check = .ok () ∧ Builtin.blocks.canonical topic = lower ∧ topic ≠ lower ∧
      ∃ fields, Builtin.blocks.parse topic = .ok fields ∧
        Builtin.blocks.build fields .topic = .ok lower ∧
        Builtin.blocks.parse lower = .ok fields := by
  intro topic lower
  have checked : Builtin.blocks.check = .ok () := check_family (by decide +kernel)
  have spelled : Builtin.blocks.canonical topic = lower := by decide +kernel
  have accepted : (Builtin.blocks.parse topic).isOk = true := by decide +kernel
  cases parsed : Builtin.blocks.parse topic with
  | error error => simp [parsed, Except.isOk, Except.toBool] at accepted
  | ok fields =>
    obtain ⟨built, again, -⟩ := build_parse checked parsed
    rw [spelled] at built again
    exact ⟨checked, spelled, by decide, fields, rfl, built, again⟩

end Topics.Definition
