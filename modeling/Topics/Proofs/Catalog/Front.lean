import Topics.Proofs.Catalog.Narrowing
import Topics.Registry.Builtin

/-! A variant refines its base: cut down to the length of the base's format, a topic of the variant
is a topic of the base. -/

namespace Topics.Definition

variable {base variant : Definition} {key topic : String} {field : FieldSpec} {word : Value}
  {shared : List String} {own : List Segment} {values : FieldMap}

/-- The part of a topic that is as long as the definition's format. -/
def front (definition : Definition) (topic : String) : String :=
  joinTokens ((tokens topic).take definition.segmentCount)

/-- The tokens of a front are the first tokens of the topic. -/
theorem tokens_front (definition : Definition) (topic : String) :
    tokens (definition.front topic) = (tokens topic).take definition.segmentCount := by
  apply tokens_joinTokens
  · -- A format has a first token, and so has the topic.
    have long : definition.segmentCount ≠ 0 := by
      rw [← length_segments]
      exact mt List.length_eq_zero_iff.mp definition.segments_ne_nil
    simp [List.take_eq_nil_iff, long, tokens_ne_nil]
  · exact fun part member => tokens_members_free (List.mem_of_mem_take member)

namespace Refines

/-- The base has its own literals, the discriminant and the shared fields. -/
theorem segmentCount_base (refines : base.Refines key variant field shared own) :
    base.segmentCount = base.leadingLiterals.length + (shared.length + 1) := by
  rw [← length_segments, refines.base_segments]
  simp

/-- A topic of the variant has the key and the shared values right behind the literals of the base,
and these are all the tokens of its front. -/
theorem tokens_front_of_build (refines : base.Refines key variant field shared own)
    (built : variant.build values .topic = .ok topic) :
    ∃ parts, tokens (base.front topic) = base.leadingLiterals ++ key :: parts ∧
      List.Forall₂ (variant.Writes values .topic) (shared.map Segment.placeholder) parts := by
  -- The tokens follow the format of the variant.
  have written := (build_eq_ok.mp built).2
  rw [refines.variant_segments, written_literals_append] at written
  obtain ⟨_, split, behind⟩ := written
  obtain ⟨_, more, first, others, rfl⟩ := List.forall₂_cons_left_iff.mp behind
  obtain rfl := writes_literal.mp first
  -- Cut behind the shared fields, what is left out belongs to the variant's own segments.
  refine ⟨more.take shared.length, ?_, ?_⟩
  · rw [tokens_front, refines.segmentCount_base, split, List.take_length_add_append,
      List.take_succ_cons]
  · have cut := List.forall₂_take shared.length others
    rwa [List.take_left' (List.length_map _)] at cut

/-- The front of a variant's topic is read by the base: the discriminant is what the key is read as,
and the other values are those that the topic was built from. -/
theorem reads_front (refines : base.Refines key variant field shared own)
    (read : field.type.decode key = .ok word)
    (built : variant.build values .topic = .ok topic) :
    ∃ entries, base.Reads base.segments (tokens (base.front topic))
        ((field.name, word) :: entries) ∧
      ∀ name value, (name, value) ∈ entries → values.get? name = some value := by
  obtain ⟨parts, split, written⟩ := refines.tokens_front_of_build built
  obtain ⟨entries, reads, held⟩ := reads_of_written written
  refine ⟨entries, ?_, held⟩
  -- What the variant reads for the shared fields the base reads as well.
  have reads' : base.Reads (shared.map Segment.placeholder) parts entries :=
    reads.of_types fun name member => refines.types name (by simpa using member)
  rw [split, refines.base_segments]
  exact reads_literals_append.mpr
    ⟨_, rfl, .placeholder (field?_of_discriminant? refines.discriminant) read reads'⟩

/-- The base parses the front of a variant's topic into the value of the key and the values that the
topic was built from. -/
theorem parse_front (refines : base.Refines key variant field shared own)
    (formed : base.WellFormed) (read : field.type.decode key = .ok word)
    (built : variant.build values .topic = .ok topic) :
    ∃ fields, base.parse (base.front topic) = .ok fields ∧ fields.keys = base.fieldNames ∧
      fields.get? field.name = some word ∧
      ∀ name ∈ base.fieldNames, name ≠ field.name →
        ∃ value, values.get? name = some value ∧ fields.get? name = some value := by
  obtain ⟨entries, reads, held⟩ := refines.reads_front read built
  obtain ⟨fields, parsed, listed⟩ := formed.parse_of_reads reads
  have names := formed.keys_of_parse parsed
  have first : fields.get? field.name = some word :=
    fields.get?_eq_some.mpr (listed ▸ List.mem_cons_self)
  refine ⟨fields, parsed, names, first, fun name member other => ?_⟩
  -- Every other name of the base is that of a shared field, whose value was built.
  obtain ⟨value, found⟩ := OrderedMap.exists_of_mem_keys (names ▸ member)
  have entry := fields.get?_eq_some.mp found
  rw [listed, List.mem_cons] at entry
  rcases entry with same | later
  · exact absurd (congrArg Prod.fst same) other
  · exact ⟨value, held name value later, found⟩

end Refines

end Topics.Definition

namespace Topics.Catalog

variable {catalog : Catalog} {entity key : String} {base variant : Definition} {values : FieldMap}

/-- A variant of an accepted catalog builds a topic from values without open fields, and the base
parses the front of this topic: its discriminant is what the key is read as, and each of its other
fields has the value that the topic was built from. -/
theorem parse_front_of_variant (checked : catalog.check = .ok ())
    (member : (entity, base) ∈ catalog) (listed : (key, variant) ∈ base.variants)
    (fits : variant.Fits values) :
    ∃ topic field word fields, variant.build values .topic = .ok topic ∧
      base.discriminant? = some field ∧ field.type.decode key = .ok word ∧
      base.parse (base.front topic) = .ok fields ∧ fields.keys = base.fieldNames ∧
      fields.get? field.name = some word ∧
      ∀ name ∈ base.fieldNames, name ≠ field.name →
        ∃ value, values.get? name = some value ∧ fields.get? name = some value := by
  have passes := passes_of_check checked member
  obtain ⟨topic, built⟩ := (passes.variant_wellFormed listed).build_topic fits
  obtain ⟨-, field, shared, own, refines⟩ := passes.refines listed
  obtain ⟨word, read⟩ := refines.keyed
  obtain ⟨fields, parsed⟩ := refines.parse_front passes.base_wellFormed read built
  exact ⟨topic, field, word, fields, built, refines.discriminant, read, parsed⟩

/-- The values of a coin that is an input. -/
def coinValues : FieldMap :=
  (((((OrderedMap.empty.insert "block_height" (.uint 7)).insert "tx_id"
    (.ofIdentifier (.replicate 0xab))).insert "tx_index" (.uint 0)).insert "input_index"
    (.uint 4294967295)).insert "owner" (.ofIdentifier (.replicate 0))).insert "asset"
    (.ofIdentifier (.replicate 0xff))

/-- The front of a coin's topic says of an input that it is a coin and where it stands. -/
theorem parse_front_of_coin :
    Catalog.builtin.check = .ok () ∧ ("inputs", Builtin.inputs) ∈ Catalog.builtin ∧
      ∃ variant, ("coin", variant) ∈ Builtin.inputs.variants ∧ variant.Fits coinValues ∧
        ∃ topic fields, variant.build coinValues .topic = .ok topic ∧
          Builtin.inputs.parse (Builtin.inputs.front topic) = .ok fields ∧
          fields.get? "input_type" = some (.label ⟨.inputType, "coin", by decide⟩) ∧
          fields.get? "input_index" = some (.uint 4294967295) := by
  have member : ("inputs", Builtin.inputs) ∈ Catalog.builtin := by simp [Catalog.builtin]
  -- Coins are listed first among the kinds of inputs.
  let coin := (Builtin.inputs.variants.head (List.cons_ne_nil _ _)).2
  have listed : ("coin", coin) ∈ Builtin.inputs.variants := List.mem_cons_self
  have fits : coin.Fits coinValues := by decide +kernel
  obtain ⟨topic, field, word, fields, built, discriminant, read, parsed, -, first, others⟩ :=
    parse_front_of_variant check_builtin member listed fits
  have chosen : Builtin.inputs.discriminant?.map (fun spec => (spec.name, spec.type)) =
      some ("input_type", .label .inputType) := by decide +kernel
  rw [discriminant, Option.map_some, Option.some.injEq, Prod.mk.injEq] at chosen
  rw [chosen.2] at read
  have kind : FieldType.decode (.label .inputType) "coin" =
      .ok (.label ⟨.inputType, "coin", by decide⟩) := by decide +kernel
  cases read.symm.trans kind
  refine ⟨check_builtin, member, coin, listed, fits, topic, fields, built, parsed,
    chosen.1 ▸ first, ?_⟩
  obtain ⟨value, held, found⟩ := others "input_index" (by decide +kernel) (by rw [chosen.1]; decide)
  have index : coinValues.get? "input_index" = some (.uint 4294967295) := by decide +kernel
  cases held.symm.trans index
  exact found

end Topics.Catalog
