import Topics.Proofs.Catalog.Narrowing
import Topics.Proofs.Registry.Tables
import Topics.Registry.Builtin

/-! A registry resolves a topic that was built by one of its definitions to that definition, or to
the variant that narrows it. -/

namespace Topics

variable {topic : String} {fault : Option TopicError} {front back : List Definition}
  {definition : Definition} {values fields : FieldMap} {catalog : Catalog} {registry : Registry}

/-- The first definition under which a topic can be parsed is what it is resolved to. -/
theorem resolveAmong_of_parse
    (unread : ∀ other ∈ front, ∀ fields, other.parse topic ≠ .ok fields)
    (parsed : definition.parse topic = .ok fields) :
    resolveAmong topic fault (front ++ definition :: back) = .ok ⟨definition, fields⟩ := by
  -- Whatever fault the definitions in front leave behind, a success outweighs it.
  induction front generalizing fault with
  | nil => simp [resolveAmong, parsed]
  | cons first rest ih =>
    rw [List.cons_append, resolveAmong]
    cases failed : first.parse topic with
    | ok other => exact absurd failed (unread first (by simp) other)
    | error error => exact ih fun other member => unread other (by simp [member])

namespace Catalog

variable {key : String} {base : Definition}

/-- The definitions of an entry that passes are well formed. -/
theorem EntryPasses.wellFormed (passes : EntryPasses key base)
    (member : definition ∈ base.variants.map Prod.snd ++ [base]) : definition.WellFormed := by
  rcases List.mem_append.mp member with listed | last
  · obtain ⟨entry, own, rfl⟩ := List.mem_map.mp listed
    exact passes.variant_wellFormed own
  · obtain rfl := List.mem_singleton.mp last
    exact passes.base_wellFormed

/-- A variant has its key behind the leading literals of its base. -/
theorem EntryPasses.leading_variant (passes : EntryPasses key base) {entry : String × Definition}
    (listed : entry ∈ base.variants) :
    entry.2.leadingLiterals = base.leadingLiterals ++ [entry.1] := by
  obtain ⟨-, field, shared, own, refines⟩ := passes.refines listed
  exact refines.leading

/-- The leading literals of any definition of an entry that passes start with the entity key. -/
theorem EntryPasses.head_leading (passes : EntryPasses key base)
    (member : definition ∈ base.variants.map Prod.snd ++ [base]) :
    definition.leadingLiterals.head? = some key := by
  rcases List.mem_append.mp member with listed | last
  · -- A variant's leading literals start with those of the base.
    obtain ⟨entry, variant, rfl⟩ := List.mem_map.mp listed
    rw [passes.leading_variant variant, List.head?_append, passes.1, Option.some_or]
  · obtain rfl := List.mem_singleton.mp last
    exact passes.1

/-- A topic with the leading literals of any definition of an entry that passes starts with the
entity key. -/
theorem EntryPasses.head_of_leading (passes : EntryPasses key base)
    (member : definition ∈ base.variants.map Prod.snd ++ [base])
    (leading : definition.leadingLiterals <+: tokens topic) : (tokens topic).head? = some key := by
  obtain ⟨rest, split⟩ := leading
  rw [← split, List.head?_append, passes.head_leading member, Option.some_or]

/-- A topic of a variant has the key of the variant behind the leading literals of the base. -/
theorem EntryPasses.leading_of_parse (passes : EntryPasses key base) {entry : String × Definition}
    (listed : entry ∈ base.variants) (parsed : entry.2.parse topic = .ok fields) :
    base.leadingLiterals ++ [entry.1] <+: tokens topic := by
  rw [← passes.leading_variant listed]
  exact (passes.wellFormed (List.mem_append_left _ (List.mem_map_of_mem listed))).leading_of_parse
    parsed

/-- A topic of any definition of an entry that passes starts with the entity key. -/
theorem EntryPasses.head_of_parse (passes : EntryPasses key base)
    (member : definition ∈ base.variants.map Prod.snd ++ [base])
    (parsed : definition.parse topic = .ok fields) : (tokens topic).head? = some key :=
  passes.head_of_leading member ((passes.wellFormed member).leading_of_parse parsed)

/-- Two variants of an entry that passes under which the same topic can be parsed have the same
key. -/
theorem EntryPasses.key_unique (passes : EntryPasses key base) {first second : String × Definition}
    (listed : first ∈ base.variants) (listed' : second ∈ base.variants) {fields' : FieldMap}
    (parsed : first.2.parse topic = .ok fields) (parsed' : second.2.parse topic = .ok fields') :
    first.1 = second.1 := by
  have leading := passes.leading_of_parse listed parsed
  have leading' := passes.leading_of_parse listed' parsed'
  -- Two prefixes of one length are the same.
  have same := List.prefix_of_prefix_length_le leading leading' (by simp)
  simpa using same.eq_of_length (by simp)

/-- Resolving reaches the entry whose entity key the topic starts with. -/
theorem resolve_in_entry (checked : catalog.check = .ok ()) (member : (key, base) ∈ catalog)
    (head : (tokens topic).head? = some key) :
    ∃ before after, catalog.candidates =
        before ++ (base.variants.map Prod.snd ++ base :: after) ∧
      ∀ other ∈ before, ∀ fields, other.parse topic ≠ .ok fields := by
  obtain ⟨each, distinct, -⟩ := (check_eq_ok catalog).mp checked
  obtain ⟨front, back, rfl⟩ := List.append_of_mem member
  refine ⟨Catalog.candidates front, Catalog.candidates back, by simp [candidates], ?_⟩
  intro other listed fields parsed
  obtain ⟨⟨key', base'⟩, entry, within⟩ := List.mem_flatMap.mp listed
  -- The entry of such a definition would have the same entity key.
  have head' := (each (key', base') (by simp [entry])).head_of_parse within parsed
  obtain rfl : key' = key := by simpa [head] using head'.symm
  rw [List.map_append, List.map_cons] at distinct
  exact (List.nodup_append.mp distinct).2.2 key' (List.mem_map_of_mem entry) key' (by simp) rfl

/-- A topic that can be parsed under a variant is resolved to this variant. -/
theorem resolve_variant (checked : catalog.check = .ok ()) (member : (key, base) ∈ catalog)
    {entry : String × Definition} (listed : entry ∈ base.variants)
    (parsed : entry.2.parse topic = .ok fields) :
    resolveAmong topic none catalog.candidates = .ok ⟨entry.2, fields⟩ := by
  have passes := passes_of_check checked member
  have head := passes.head_of_parse (List.mem_append_left _ (List.mem_map_of_mem listed)) parsed
  obtain ⟨before, after, split, unread⟩ := resolve_in_entry checked member head
  -- Another variant in front of this one would have the same key.
  obtain ⟨front, back, shape⟩ := List.append_of_mem listed
  have distinct := passes.nodup_keys
  rw [shape, List.map_append, List.map_cons] at distinct
  have skipped : ∀ other ∈ before ++ front.map Prod.snd, ∀ fields,
      other.parse topic ≠ .ok fields := by
    intro other inFront fields' parsed'
    rcases List.mem_append.mp inFront with earlier | sibling
    · exact unread other earlier fields' parsed'
    · obtain ⟨other, first, rfl⟩ := List.mem_map.mp sibling
      have same := passes.key_unique (by simp [shape, first]) listed parsed' parsed
      exact (List.nodup_append.mp distinct).2.2 other.1 (List.mem_map_of_mem first) entry.1
        (by simp) same
  have order : catalog.candidates = (before ++ front.map Prod.snd) ++
      entry.2 :: (back.map Prod.snd ++ base :: after) := by
    simp [split, shape]
  rw [order]
  exact resolveAmong_of_parse skipped parsed

/-- A topic that can be parsed under a base and none of its variants is resolved to the base. -/
theorem resolve_base (checked : catalog.check = .ok ()) (member : (key, base) ∈ catalog)
    (unread : ∀ entry ∈ base.variants, ∀ fields, entry.2.parse topic ≠ .ok fields)
    (parsed : base.parse topic = .ok fields) :
    resolveAmong topic none catalog.candidates = .ok ⟨base, fields⟩ := by
  -- The base comes behind the definitions of other entries and its own variants.
  have passes := passes_of_check checked member
  have head := passes.head_of_parse (by simp) parsed
  obtain ⟨before, after, split, earlier⟩ := resolve_in_entry checked member head
  rw [split, ← List.append_assoc]
  refine resolveAmong_of_parse (fun other listed => ?_) parsed
  rcases List.mem_append.mp listed with inFront | sibling
  · exact earlier other inFront
  · obtain ⟨entry, variant, rfl⟩ := List.mem_map.mp sibling
    exact unread entry variant

/-- Each definition of a catalog is a base or one of the variants of a base. -/
theorem mem_definitions :
    definition ∈ catalog.definitions ↔ ∃ key base, (key, base) ∈ catalog ∧
      (definition = base ∨ ∃ word, (word, definition) ∈ base.variants) := by
  simp [definitions]

/-- The blocks are a base of the built-in catalog. -/
theorem blocks_listed : Builtin.blocks ∈ Catalog.builtin.definitions :=
  mem_definitions.mpr ⟨"blocks", _, by simp [builtin], Or.inl rfl⟩

/-- The candidates of an entry are the base and its variants. -/
theorem mem_candidates_entry :
    definition ∈ base.variants.map Prod.snd ++ [base] ↔
      definition = base ∨ ∃ word, (word, definition) ∈ base.variants := by
  simp [or_comm]

/-- Each definition of a checked catalog is well formed. -/
theorem wellFormed_of_check (checked : catalog.check = .ok ())
    (listed : definition ∈ catalog.definitions) : definition.WellFormed := by
  obtain ⟨key, base, member, place⟩ := mem_definitions.mp listed
  have passes := passes_of_check checked member
  exact passes.wellFormed (mem_candidates_entry.mpr place)

end Catalog

namespace Registry

/-- Each definition of a registry is well formed. -/
theorem wellFormed (listed : definition ∈ registry.catalog.definitions) :
    definition.WellFormed :=
  Catalog.wellFormed_of_check registry.checked listed

/-- Only bases have variants that narrow them. -/
theorem mem_catalog_of_narrows (listed : definition ∈ registry.catalog.definitions)
    {field : FieldSpec} {variant : Definition}
    (narrows : definition.Narrows values field variant) :
    ∃ key, (key, definition) ∈ registry.catalog := by
  obtain ⟨key, base, member, rfl | ⟨word, own⟩⟩ := Catalog.mem_definitions.mp listed
  · exact ⟨key, member⟩
  · obtain ⟨_, _, -, -, -, below, -⟩ := narrows
    exact absurd below ((Catalog.passes_of_check registry.checked member).childless own _)

/-- A topic that a definition builds is resolved to the variant that narrows its values. -/
theorem resolve_of_narrows (listed : definition ∈ registry.catalog.definitions) {field : FieldSpec}
    {variant : Definition} (narrows : definition.Narrows values field variant)
    (built : definition.build values .topic = .ok topic) :
    ∃ fields, registry.resolve topic = .ok ⟨variant, fields⟩ ∧
      fields.keys = variant.fieldNames ∧
      (∀ name, fields.get? name = (values.erase field.name).get? name) ∧
      variant.build fields .topic = .ok topic := by
  obtain ⟨key, member⟩ := mem_catalog_of_narrows listed narrows
  have passes := Catalog.passes_of_check registry.checked member
  have built' := narrows.build_variant passes.base_wellFormed passes.variants_pass built
  obtain ⟨word, value, -, -, -, below, -⟩ := narrows
  rw [resolve_eq]
  -- What the variant builds it parses, and it comes before its base.
  obtain ⟨fields, parsed, names, same, again⟩ := (passes.variant_wellFormed below).rebuild built'
  exact ⟨fields, Catalog.resolve_variant registry.checked member below parsed, names, same, again⟩

/-- A topic that a definition builds is resolved to this definition where no variant narrows its
values. -/
theorem resolve_of_not_narrows (listed : definition ∈ registry.catalog.definitions)
    (wide : ∀ field variant, ¬ definition.Narrows values field variant)
    (built : definition.build values .topic = .ok topic) :
    ∃ fields, registry.resolve topic = .ok ⟨definition, fields⟩ ∧
      fields.keys = definition.fieldNames ∧ (∀ name, fields.get? name = values.get? name) ∧
      definition.build fields .topic = .ok topic := by
  obtain ⟨key, base, member, place⟩ := Catalog.mem_definitions.mp listed
  have passes := Catalog.passes_of_check registry.checked member
  rw [resolve_eq]
  -- A base is reached behind its variants, and a variant by itself.
  rcases place with rfl | ⟨word, variant⟩
  · have formed := passes.base_wellFormed
    obtain ⟨fields, parsed, names, same, again⟩ := formed.rebuild built
    refine ⟨fields, Catalog.resolve_base registry.checked member ?_ parsed, names, same, again⟩
    -- A variant under which the topic can be parsed narrows its values.
    intro entry variant fields' parsed'
    obtain ⟨field, narrows⟩ :=
      Definition.narrows_of_parse formed passes.variants_pass variant built parsed'
    exact wide field entry.2 narrows
  · have formed := passes.variant_wellFormed variant
    obtain ⟨fields, parsed, names, same, again⟩ := formed.rebuild built
    exact ⟨fields, Catalog.resolve_variant registry.checked member variant parsed, names, same,
      again⟩

/-- A topic built by a definition of an accepted catalog from values without open fields is
resolved: to the variant that narrows the values, without the value of the discriminant, or else to
the definition itself with all the values; what it is resolved to builds the topic again. -/
theorem resolve_build (accepted : ofCatalog catalog = .ok registry)
    (listed : definition ∈ catalog.definitions) (fits : definition.Fits values) :
    ∃ topic found, definition.build values .topic = .ok topic ∧
      registry.resolve topic = .ok found ∧
      (∀ field variant, definition.Narrows values field variant →
        found.definition = variant ∧
          ∀ name, found.fields.get? name = (values.erase field.name).get? name) ∧
      ((∀ field variant, ¬ definition.Narrows values field variant) →
        found.definition = definition ∧ ∀ name, found.fields.get? name = values.get? name) ∧
      found.fields.keys = found.definition.fieldNames ∧
      found.definition.build found.fields .topic = .ok topic := by
  obtain rfl := ofCatalog_eq_ok.mp accepted
  obtain ⟨topic, built⟩ := (wellFormed listed).build_topic fits
  by_cases narrow : ∃ field variant, definition.Narrows values field variant
  · obtain ⟨field, variant, narrows⟩ := narrow
    obtain ⟨fields, resolved, names, same, again⟩ := resolve_of_narrows listed narrows built
    refine ⟨topic, ⟨variant, fields⟩, built, resolved, fun field' variant' narrows' => ?_,
      fun wide => absurd narrows (wide field variant), names, again⟩
    -- The topic is resolved once, so no other variant narrows the values.
    obtain ⟨fields', resolved', -, same', -⟩ := resolve_of_narrows listed narrows' built
    rw [resolved, Except.ok.injEq, Resolution.mk.injEq] at resolved'
    obtain ⟨rfl, rfl⟩ := resolved'
    exact ⟨rfl, same'⟩
  · have wide : ∀ field variant, ¬ definition.Narrows values field variant :=
      fun field variant narrows => narrow ⟨field, variant, narrows⟩
    obtain ⟨fields, resolved, names, same, again⟩ := resolve_of_not_narrows listed wide built
    exact ⟨topic, ⟨definition, fields⟩, built, resolved,
      fun field variant narrows => absurd narrows (wide field variant), fun _ => ⟨rfl, same⟩, names,
      again⟩

/-- The values of a receipt of a kind whose topics have no further fields. -/
def scriptResultValues : FieldMap :=
  ((((OrderedMap.empty.insert "receipt_type"
    (.label ⟨.receiptType, "script_result", by decide⟩)).insert "block_height"
    (.uint 7)).insert "tx_id" (.ofIdentifier (.replicate 0xab))).insert "tx_index"
    (.uint 0)).insert "receipt_index" (.uint 4294967295)

/-- A receipt's topic is resolved to the kind that it names, without the name of the kind. -/
theorem resolve_build_script_result :
    ofCatalog Catalog.builtin = .ok builtin ∧ Builtin.receipts ∈ Catalog.builtin.definitions ∧
      Builtin.receipts.Fits scriptResultValues ∧
      ∃ topic found, Builtin.receipts.build scriptResultValues .topic = .ok topic ∧
        builtin.resolve topic = .ok found ∧ found.definition.id = "receipts_script_result" ∧
        found.fields.keys = ["block_height", "tx_id", "tx_index", "receipt_index"] := by
  have accepted : ofCatalog Catalog.builtin = .ok builtin := ofCatalog_eq_ok.mpr rfl
  have listed : Builtin.receipts ∈ Catalog.builtin.definitions :=
    Catalog.mem_definitions.mpr ⟨"receipts", _, by simp [Catalog.builtin], Or.inl rfl⟩
  have fits : Builtin.receipts.Fits scriptResultValues := by decide +kernel
  obtain ⟨topic, found, built, resolved, narrowed, -, names, -⟩ :=
    resolve_build accepted listed fits
  have narrows : Builtin.receipts.Narrows scriptResultValues
      ⟨"receipt_type", .label .receiptType, "The type of receipt"⟩
      (Builtin.receipt "script_result" "ReceiptsScriptResultSubject" "this script result receipt"
        []).2 :=
    ⟨"script_result", .label ⟨.receiptType, "script_result", by decide⟩, by decide +kernel,
      by decide +kernel, by decide +kernel,
      by simp [Builtin.receipts, Definition.family, Builtin.receiptVariants, Builtin.receipt],
      by decide +kernel⟩
  obtain ⟨kind, -⟩ := narrowed _ _ narrows
  refine ⟨accepted, listed, fits, topic, found, built, resolved, ?_, ?_⟩
  · rw [kind]
    rfl
  · rw [names, kind]
    rfl

end Registry

end Topics
