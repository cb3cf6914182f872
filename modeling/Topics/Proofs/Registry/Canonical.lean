import Topics.Proofs.Registry.Resolve

/-! A topic and its canonical spelling are resolved alike, unless the canonical spelling of an
identifier is the key of a variant. -/

namespace Topics

variable {topic : String} {registry : Registry} {found : Resolution}

namespace Definition

variable {base variant : Definition} {key : String} {field : FieldSpec} {shared : List String}
  {own : List Segment} {fields : FieldMap}

/-- A topic that the base reads has the discriminant's token right behind the base's own literals,
and then the tokens of the shared fields. -/
theorem Refines.tokens_of_parse (refines : base.Refines key variant field shared own)
    (formed : base.WellFormed) (parsed : base.parse topic = .ok fields) :
    ∃ token value more rest, tokens topic = base.leadingLiterals ++ token :: more ∧
      field.type.decode token = .ok value ∧ fields.get? field.name = some value ∧
      base.Reads (shared.map Segment.placeholder) more rest := by
  have reads := formed.parse_eq_ok.mp parsed
  rw [refines.base_segments, reads_literals_append] at reads
  obtain ⟨parts, split, behind⟩ := reads
  -- The first token behind the literals is read in the type of the discriminant.
  generalize listed : fields.entries = entries at behind
  cases behind with
  | @placeholder _ more rest _ token spec value declared read others =>
    rw [field?_of_discriminant? refines.discriminant, Option.some.injEq] at declared
    subst declared
    have held : fields.get? field.name = some value :=
      fields.get?_eq_some.mpr (listed ▸ List.mem_cons_self)
    exact ⟨token, value, more, rest, split, read, held, others⟩

variable (formed : base.WellFormed)
  (passes : ∀ entry ∈ base.variants,
    entry.2.check = .ok () ∧ base.checkVariant entry.1 entry.2 = .ok ())

include formed passes

/-- A variant that narrows the values of a topic reads the topic itself, where the discriminant is
no identifier. -/
theorem Narrows.parse_variant (narrows : base.Narrows fields field variant)
    (worded : field.type.isIdentifier = false) (parsed : base.parse topic = .ok fields) :
    ∃ fields', variant.parse topic = .ok fields' := by
  obtain ⟨key, value, shared, own, refines, formed', held, encoded, count⟩ := narrows.refines passes
  obtain ⟨token, value', more, rest, split, read, held', others⟩ :=
    refines.tokens_of_parse formed parsed
  -- The key is the token that the discriminant's value was read from.
  obtain rfl : value = value' := Option.some.inj (held.symm.trans held')
  obtain rfl : key = token := by
    have spelled := encoded.symm.trans (FieldType.encode_of_decode read)
    rw [Except.ok.injEq] at spelled
    rw [spelled, FieldType.canonicalToken, worded]
    simp
  -- So the variant finds its key there, and reads what the base reads behind it.
  have reads : variant.Reads variant.segments (tokens topic) rest := by
    rw [refines.variant_segments, refines.own_eq_nil count, List.append_nil, split]
    refine reads_literals_append.mpr ⟨_, rfl, .literal key (others.of_types fun name member => ?_)⟩
    exact (refines.types name (by simpa using member)).symm
  obtain ⟨fields', parsed', -⟩ := formed'.parse_of_reads reads
  exact ⟨fields', parsed'⟩

end Definition

/-- What a topic is resolved to is one of the definitions that were tried, with the values that it
parses the topic into. -/
theorem mem_of_resolveAmong {fault : Option TopicError} {definitions : List Definition}
    (resolved : resolveAmong topic fault definitions = .ok found) :
    found.definition ∈ definitions ∧ found.definition.parse topic = .ok found.fields := by
  -- The fault that is remembered changes with each definition, so it is kept general.
  induction definitions generalizing fault with
  | nil => cases resolved
  | cons first rest ih =>
    rw [resolveAmong] at resolved
    cases parsed : first.parse topic with
    | ok fields =>
      simp only [parsed, Except.ok.injEq] at resolved
      subst resolved
      exact ⟨List.mem_cons_self, parsed⟩
    | error error =>
      simp only [parsed] at resolved
      obtain ⟨member, parsed'⟩ := ih resolved
      exact ⟨List.mem_cons_of_mem _ member, parsed'⟩

namespace Catalog

/-- No variant fixes a field that holds identifiers, so each key is the one spelling of its value. -/
def FixesWords (catalog : Catalog) : Prop :=
  ∀ entry ∈ catalog, ∀ field, entry.2.discriminant? = some field → field.type.isIdentifier = false

/-- The field that the variants of a base fix is the first one that the base declares. -/
theorem EntryPasses.head?_fields {key : String} {base : Definition} {field : FieldSpec}
    (passes : EntryPasses key base) (discriminant : base.discriminant? = some field) :
    base.hasVariants = true ∧ base.fields.head? = some field := by
  -- There is a first variant, which tells the field.
  have some_variant : base.variants ≠ [] := by
    intro none
    simp [Definition.discriminant?, none] at discriminant
  obtain ⟨entry, listed⟩ := List.exists_mem_of_ne_nil _ some_variant
  obtain ⟨-, field', shared, own, refines⟩ := passes.refines listed
  obtain rfl : field = field' := Option.some.inj (discriminant.symm.trans refines.discriminant)
  -- The base places it in front of the shared fields, and declares its fields in this order.
  have names : base.fields.map FieldSpec.name = field.name :: shared :=
    refines.fieldNames_base passes.base_wellFormed
  obtain ⟨spec, rest, shape, same, -⟩ := List.map_eq_cons_iff.mp names
  have first := Definition.field?_of_discriminant? discriminant
  rw [Definition.field?, shape, List.find?_cons_of_pos (by simpa using same)] at first
  refine ⟨by simpa [Definition.hasVariants] using some_variant, ?_⟩
  rw [shape, List.head?_cons, first]

/-- The variants of the built-in catalog tell kinds of inputs, outputs and receipts apart. -/
theorem fixesWords_builtin : builtin.FixesWords := by
  intro entry member field discriminant
  obtain ⟨variants, first⟩ := (passes_of_check check_builtin member).head?_fields discriminant
  have heads : ∀ entry ∈ builtin, entry.2.hasVariants = true →
      ∀ spec ∈ entry.2.fields.head?, spec.type.isIdentifier = false := by
    decide
  exact heads entry member variants field first

end Catalog

namespace Registry

/-- What a topic is resolved to is a definition of the registry, with the values that it parses the
topic into. -/
theorem parse_of_resolve (resolved : registry.resolve topic = .ok found) :
    found.definition ∈ registry.catalog.definitions ∧
      found.definition.parse topic = .ok found.fields := by
  rw [resolve_eq] at resolved
  obtain ⟨member, parsed⟩ := mem_of_resolveAmong resolved
  refine ⟨?_, parsed⟩
  -- Candidates and definitions differ in their order only.
  obtain ⟨⟨key, base⟩, entry, inside⟩ := List.mem_flatMap.mp member
  exact Catalog.mem_definitions.mpr ⟨key, base, entry, Catalog.mem_candidates_entry.mp inside⟩

/-- The values that a topic is resolved to build its canonical spelling, which is resolved to the
same definition and the same values unless a variant of the definition narrows them. -/
theorem resolve_canonical_of_not_narrows (resolved : registry.resolve topic = .ok found)
    (wide : ∀ field variant, ¬ found.definition.Narrows found.fields field variant) :
    registry.resolve (found.definition.canonical topic) = .ok found := by
  obtain ⟨listed, parsed⟩ := parse_of_resolve resolved
  have formed := wellFormed listed
  obtain ⟨fields, again, names, same, -⟩ :=
    resolve_of_not_narrows listed wide (formed.build_of_parse parsed)
  -- The values have the same names in the same order, and the same look-ups.
  have names' := formed.keys_of_parse parsed
  rw [again, OrderedMap.eq_of_get? (names.trans names'.symm) same]

/-- No variant narrows the values that a topic is resolved to where variants fix words: it would
have read the topic before its base. -/
theorem not_narrows_of_resolve (words : registry.catalog.FixesWords)
    (resolved : registry.resolve topic = .ok found) (field : FieldSpec) (variant : Definition) :
    ¬ found.definition.Narrows found.fields field variant := by
  intro narrows
  obtain ⟨listed, parsed⟩ := parse_of_resolve resolved
  obtain ⟨key, member⟩ := mem_catalog_of_narrows listed narrows
  have passes := Catalog.passes_of_check registry.checked member
  obtain ⟨word, value, discriminant, -, -, below, -⟩ := id narrows
  have worded := words _ member field discriminant
  obtain ⟨fields', parsed'⟩ :=
    narrows.parse_variant passes.base_wellFormed passes.variants_pass worded parsed
  -- So the topic is resolved to the variant, which has no variants itself.
  rw [resolve_eq, Catalog.resolve_variant registry.checked member below parsed',
    Except.ok.injEq] at resolved
  subst resolved
  exact passes.childless below _ below

/-- Any topic that the built-in registry resolves has values that build its canonical spelling, and
this is resolved to the same definition and the same values. -/
theorem resolve_canonical_builtin (resolved : builtin.resolve topic = .ok found) :
    found.definition.build found.fields .topic = .ok (found.definition.canonical topic) ∧
      builtin.resolve (found.definition.canonical topic) = .ok found := by
  obtain ⟨listed, parsed⟩ := parse_of_resolve resolved
  have wide := not_narrows_of_resolve Catalog.fixesWords_builtin resolved
  exact ⟨(wellFormed listed).build_of_parse parsed,
    resolve_canonical_of_not_narrows resolved wide⟩

/-- A topic of an input that names a coin, but has fewer tokens than a coin's, stays a topic of
inputs when its transaction is spelled in lower case. -/
theorem resolve_canonical_input :
    let topic :=
      "inputs.coin.7.0xABABABABABABABABABABABABABABABABABABABABABABABABABABABABABABABab.0.1"
    let lower :=
      "inputs.coin.7.0xabababababababababababababababababababababababababababababababab.0.1"
    topic ≠ lower ∧ ∃ found, builtin.resolve topic = .ok found ∧ found.definition.id = "inputs" ∧
      found.definition.build found.fields .topic = .ok lower ∧
      builtin.resolve lower = .ok found := by
  intro topic lower
  have split : tokens topic = ["inputs", "coin", "7",
      "0xABABABABABABABABABABABABABABABABABABABABABABABABABABABABABABABab", "0", "1"] := by
    decide +kernel
  have accepted : (Builtin.inputs.parse topic).isOk = true := by
    unfold Definition.parse
    rw [split]
    decide +kernel
  have spelled : Builtin.inputs.canonical topic = lower := by
    unfold Definition.canonical
    rw [split]
    decide +kernel
  obtain ⟨fields, parsed⟩ := isOk_iff.mp accepted
  have unread : ∀ entry ∈ Builtin.inputs.variants, ∀ fields,
      entry.2.parse topic ≠ .ok fields := by
    -- The variants' topics have more tokens.
    have more : ∀ entry ∈ Builtin.inputs.variants, entry.2.segmentCount ≠ 6 := by decide +kernel
    intro entry variant fields parsed
    have formed := (Catalog.passes_of_check Catalog.check_builtin Catalog.inputs_listed).wellFormed
      (Catalog.mem_candidates_entry.mpr (Or.inr ⟨entry.1, variant⟩))
    have length := formed.length_of_parse parsed
    rw [split] at length
    exact more entry variant length.symm
  have resolved : builtin.resolve topic = .ok ⟨Builtin.inputs, fields⟩ := by
    rw [resolve_eq]
    exact Catalog.resolve_base Catalog.check_builtin Catalog.inputs_listed unread parsed
  obtain ⟨built, again⟩ := resolve_canonical_builtin resolved
  rw [spelled] at built again
  exact ⟨by decide, _, resolved, rfl, built, again⟩

end Registry

end Topics
