import Topics.Kind
import Topics.Proofs.Registry.Lookup
import Topics.Proofs.Registry.Resolve
import Topics.Proofs.Text

/-! Kinds and the built-in registry know the same ids, and mean the same definition by each. -/

namespace Topics

namespace Family

/-- An entity key is all in front of the first underscore. -/
theorem underscore_not_mem_key (family : Family) : '_' ∉ family.key.toList := by
  cases family <;> decide

/-- A family is found under its own key only. -/
theorem ofKey?_eq_some {family : Family} {text : String} :
    ofKey? text = some family ↔ family.key = text := by
  constructor
  · -- What is found has passed the comparison.
    intro found
    simpa using List.find?_some found
  · -- No two families share a key.
    rintro rfl
    cases family <;> decide

/-- The words that tell the variants of a family apart; none where it has no variants. -/
def words (family : Family) : List String := (family.vocabulary?.map Vocabulary.words).getD []

/-- The base that the built-in catalog has for a family. -/
def base : Family → Definition
  | blocks => Builtin.blocks
  | transactions => Builtin.transactions
  | inputs => Builtin.inputs
  | outputs => Builtin.outputs
  | receipts => Builtin.receipts
  | utxos => Builtin.utxos

/-- The built-in catalog lists the families' bases under their keys. -/
theorem mem_builtin {key : String} {definition : Definition} :
    (key, definition) ∈ Catalog.builtin ↔
      ∃ family : Family, family.key = key ∧ family.base = definition := by
  have listed : Catalog.builtin = all.map fun family => (family.key, family.base) := rfl
  have every (family : Family) : family ∈ all := by cases family <;> decide
  simp [listed, every]

/-- The id of a family's base is the key of the family. -/
theorem id_base (family : Family) : family.base.id = family.key := by
  cases family <;> rfl

/-- The variants of a family's base are listed under the words of the family. -/
theorem keys_base (family : Family) : (family.base.variants.map Prod.fst).Perm family.words := by
  cases family <;> decide

/-- The id of a variant is the key of the family and the word under which it is listed. -/
theorem id_variant (family : Family) :
    ∀ entry ∈ family.base.variants, entry.2.id = family.key ++ "_" ++ entry.1 := by
  cases family <;> decide

end Family

namespace Kind

variable {kind : Kind} {family : Family} {id word : String} {definition : Definition}

private theorem ext {a b : Kind} (sameFamily : a.family = b.family) (same : a.label = b.label) :
    a = b := by
  -- That a label fits its family is no further data.
  cases a
  cases b
  simp_all

private theorem id_of_base (unlabelled : kind.variantKey? = none) : kind.id = kind.entityKey := by
  rw [Kind.id, unlabelled]

private theorem id_of_variant (labelled : kind.variantKey? = some word) :
    kind.id = kind.entityKey ++ "_" ++ word := by
  rw [Kind.id, labelled]

/-- A variant is found under a word exactly when it is the variant of the family with this word. -/
theorem variant?_eq_some :
    variant? family word = some kind ↔ kind.family = family ∧ kind.variantKey? = some word := by
  unfold variant?
  split
  · rename_i none
    simp only [reduceCtorEq, false_iff, not_and]
    -- A label would come from the family's vocabulary.
    rintro rfl labelled
    obtain ⟨label, held, -⟩ := Option.map_eq_some_iff.mp labelled
    simp [kind.fits label held] at none
  · rename_i vocabulary known
    constructor
    · -- The variant is made from the family and the word.
      intro found
      split at found
      · cases found
        exact ⟨rfl, rfl⟩
      · cases found
    · rintro ⟨rfl, labelled⟩
      obtain ⟨label, held, rfl⟩ := Option.map_eq_some_iff.mp labelled
      -- The label is one of the words of the same vocabulary.
      obtain rfl : vocabulary = label.vocabulary :=
        Option.some.inj (known.symm.trans (kind.fits label held))
      rw [dif_pos label.listed, Option.some.injEq]
      exact ext rfl held.symm

/-- Without an underscore, an id is looked for among the entity keys. -/
theorem ofId?_of_not_mem (free : '_' ∉ id.toList) : ofId? id = (Family.ofKey? id).map ofFamily := by
  have divided := span_append free [] (by simp)
  rw [List.append_nil] at divided
  rw [ofId?, divided]

/-- The first underscore of an id stands between an entity key and the word of a variant. -/
theorem ofId?_append {entity : String} (free : '_' ∉ entity.toList) (word : String) :
    ofId? (entity ++ "_" ++ word) =
      (Family.ofKey? entity).bind fun family => variant? family word := by
  -- Whatever underscores the word has, they stand behind the first one.
  have chars : (entity ++ "_" ++ word).toList = entity.toList ++ '_' :: word.toList := by simp
  have divided := span_append free ('_' :: word.toList) (by simp)
  rw [ofId?, chars, divided]
  simp

/-- A kind is found under its own id, and under no other. -/
theorem ofId?_eq_some : ofId? id = some kind ↔ kind.id = id := by
  constructor
  · intro found
    by_cases divided : '_' ∈ id.toList
    · -- What stands in front of the first underscore is the key, and what stands behind it the word.
      obtain ⟨front, back, rfl, free⟩ := exists_divided (by decide : "_".toList = ['_']) divided
      rw [ofId?_append free, Option.bind_eq_some_iff] at found
      obtain ⟨family, keyed, worded⟩ := found
      obtain ⟨rfl, labelled⟩ := variant?_eq_some.mp worded
      rw [id_of_variant labelled, entityKey, Family.ofKey?_eq_some.mp keyed]
    · -- Without an underscore, only the base of a family is found.
      rw [ofId?_of_not_mem divided, Option.map_eq_some_iff] at found
      obtain ⟨family, keyed, rfl⟩ := found
      exact Family.ofKey?_eq_some.mp keyed
  · rintro rfl
    -- The key has no underscore, so the first one of the id ends the key.
    have free : '_' ∉ kind.entityKey.toList := kind.family.underscore_not_mem_key
    have keyed : Family.ofKey? kind.entityKey = some kind.family := Family.ofKey?_eq_some.mpr rfl
    cases labelled : kind.variantKey? with
    | none =>
      have none : kind.label = none := by simpa [variantKey?] using labelled
      rw [id_of_base labelled, ofId?_of_not_mem free, keyed, Option.map_some]
      exact congrArg some (ext rfl none.symm)
    | some word =>
      rw [id_of_variant labelled, ofId?_append free, keyed, Option.bind_some]
      exact variant?_eq_some.mpr ⟨rfl, labelled⟩

/-- A kind names the base under its entity key, or the variant listed there under its word. -/
theorem definition_eq_ok {registry : Registry} :
    kind.definition registry = .ok definition ↔
      ∃ base, (kind.entityKey, base) ∈ registry.catalog ∧
        match kind.variantKey? with
        | none => definition = base
        | some word => (word, definition) ∈ base.variants := by
  -- Bases and variants are looked up in the registry, which answers from its catalog.
  rw [Kind.definition]
  cases kind.variantKey? with
  | none =>
    rw [Registry.select, Registry.base_eq_ok]
    simp
  | some word => exact Registry.variant_eq_ok

/-- The words of a family are those of its variants. -/
theorem mem_words : word ∈ family.words ↔
    ∃ kind : Kind, kind.family = family ∧ kind.variantKey? = some word := by
  constructor
  · -- A word of the family's vocabulary is a label of it.
    intro member
    cases known : family.vocabulary? with
    | none => simp [Family.words, known] at member
    | some vocabulary =>
      have listed : word ∈ vocabulary.words := by simpa [Family.words, known] using member
      exact ⟨⟨family, some ⟨vocabulary, word, listed⟩, by rintro l ⟨⟩; exact known⟩, rfl, rfl⟩
  · rintro ⟨kind, rfl, labelled⟩
    -- A kind's label is one of its family's vocabulary.
    obtain ⟨label, held, rfl⟩ := Option.map_eq_some_iff.mp labelled
    simp [Family.words, kind.fits label held, label.listed]

/-- The base of a kind's family is listed under the entity key. -/
theorem base_listed (kind : Kind) : (kind.entityKey, kind.family.base) ∈ Catalog.builtin :=
  Family.mem_builtin.mpr ⟨kind.family, rfl, rfl⟩

/-- Each kind names a definition of the built-in registry, which has the id of the kind. -/
theorem exists_definition (kind : Kind) :
    ∃ definition, kind.definition .builtin = .ok definition ∧ definition.id = kind.id := by
  have listed := kind.base_listed
  cases labelled : kind.variantKey? with
  | none =>
    refine ⟨kind.family.base, definition_eq_ok.mpr ⟨_, listed, by rw [labelled]⟩, ?_⟩
    rw [id_of_base labelled]
    exact kind.family.id_base
  | some word =>
    -- The catalog lists a variant under each word of the family.
    have member : word ∈ kind.family.words := mem_words.mpr ⟨kind, rfl, labelled⟩
    obtain ⟨entry, below, rfl⟩ := List.mem_map.mp (kind.family.keys_base.mem_iff.mpr member)
    refine ⟨entry.2, definition_eq_ok.mpr ⟨_, listed, by rw [labelled]; exact below⟩, ?_⟩
    rw [id_of_variant labelled]
    exact kind.family.id_variant entry below

private theorem id_of_named (named : kind.definition .builtin = .ok definition) :
    definition.id = kind.id := by
  -- A kind names one definition only.
  obtain ⟨definition', named', same⟩ := kind.exists_definition
  cases named.symm.trans named'
  exact same

/-- Each definition of the built-in catalog is named by a kind. -/
theorem exists_of_mem_builtin (listed : definition ∈ Catalog.builtin.definitions) :
    ∃ kind : Kind, kind.definition .builtin = .ok definition := by
  obtain ⟨key, base, entry, place⟩ := Catalog.mem_definitions.mp listed
  obtain ⟨family, rfl, rfl⟩ := Family.mem_builtin.mp entry
  rcases place with rfl | ⟨word, below⟩
  · exact ⟨ofFamily family, definition_eq_ok.mpr ⟨_, entry, rfl⟩⟩
  · -- The word of a variant is one of the family's, so there is a kind of this word.
    have member : word ∈ family.words :=
      family.keys_base.mem_iff.mp (List.mem_map_of_mem below)
    obtain ⟨kind, rfl, labelled⟩ := mem_words.mp member
    exact ⟨kind, definition_eq_ok.mpr ⟨_, entry, by rw [labelled]; exact below⟩⟩

/-- The definition with an id in the built-in registry is the one that the kind with this id
names. -/
theorem definition_builtin_eq_ok :
    Registry.builtin.definition id = .ok definition ↔
      ∃ kind : Kind, kind.id = id ∧ kind.definition .builtin = .ok definition := by
  rw [Registry.definition_eq_ok]
  constructor
  · rintro ⟨listed, rfl⟩
    -- Some kind names the definition, and its id is that of what it names.
    obtain ⟨kind, named⟩ := exists_of_mem_builtin listed
    exact ⟨kind, (id_of_named named).symm, named⟩
  · rintro ⟨kind, rfl, named⟩
    refine ⟨?_, id_of_named named⟩
    -- What a kind names is listed in the catalog.
    obtain ⟨base, entry, place⟩ := definition_eq_ok.mp named
    apply Catalog.mem_definitions.mpr
    cases labelled : kind.variantKey? with
    | none => exact ⟨_, base, entry, Or.inl (by rw [labelled] at place; exact place)⟩
    | some word => exact ⟨_, base, entry, Or.inr ⟨word, by rw [labelled] at place; exact place⟩⟩

/-- A kind names a variant exactly when the definition is listed among the variants of its base. -/
theorem isVariant_iff {base : Definition} (listed : (kind.entityKey, base) ∈ Catalog.builtin)
    (named : kind.definition .builtin = .ok definition) :
    kind.isVariant = true ↔ ∃ word, (word, definition) ∈ base.variants := by
  obtain ⟨base', listed', place⟩ := definition_eq_ok.mp named
  obtain rfl : base' = base := Registry.base_unique listed' listed
  have labelled : kind.isVariant = kind.variantKey?.isSome := by simp [isVariant, variantKey?]
  rw [labelled]
  cases key : kind.variantKey? with
  | none =>
    rw [key] at place
    subst place
    simp only [Option.isSome_none, Bool.false_eq_true, false_iff, not_exists]
    intro word below
    -- A base that is its own variant would have no variants.
    exact (Catalog.passes_of_check Catalog.check_builtin listed).childless below _ below
  | some word =>
    rw [key] at place
    exact iff_of_true rfl ⟨word, place⟩

/-- A kind and a definition that are known under the same id belong together. -/
structure Names (kind : Kind) (id : String) (definition : Definition) : Prop where
  /-- The kind has the id. -/
  kind_id : kind.id = id
  /-- The definition has the id. -/
  definition_id : definition.id = id
  /-- The kind names the definition. -/
  named : kind.definition .builtin = .ok definition
  /-- The base of the kind names the base listed under the entity key, and the kind is one of a
  variant exactly when the definition is one of the variants of this base. -/
  below : ∃ base, (kind.entityKey, base) ∈ Catalog.builtin ∧
    kind.base.definition .builtin = .ok base ∧
    (kind.isVariant = true ↔ ∃ word, (word, definition) ∈ base.variants)

end Kind

namespace Registry

/-- A text is the id of a definition in the built-in registry exactly when it is the id of a kind,
and then the kind names this definition, as a base or as a variant. -/
theorem definition_iff_kind (id : String) :
    ((∃ definition, builtin.definition id = .ok definition) ↔
      ∃ kind, Kind.ofId? id = some kind) ∧
    ∀ definition kind, builtin.definition id = .ok definition → Kind.ofId? id = some kind →
      kind.Names id definition := by
  constructor
  · -- Both look-ups succeed exactly where some kind has the id.
    simp only [Kind.definition_builtin_eq_ok, Kind.ofId?_eq_some]
    constructor
    · rintro ⟨definition, kind, same, -⟩
      exact ⟨kind, same⟩
    · rintro ⟨kind, same⟩
      obtain ⟨definition, named, -⟩ := kind.exists_definition
      exact ⟨definition, kind, same, named⟩
  · intro definition kind found known
    obtain ⟨kind', same, named⟩ := Kind.definition_builtin_eq_ok.mp found
    -- Only one kind has the id.
    obtain rfl : kind = kind' := Option.some.inj (known.symm.trans (Kind.ofId?_eq_some.mpr same))
    exact {
      kind_id := same
      definition_id := (definition_eq_ok.mp found).2
      named := named
      below := ⟨_, kind.base_listed, Kind.definition_eq_ok.mpr ⟨_, kind.base_listed, rfl⟩,
        Kind.isVariant_iff kind.base_listed named⟩ }

/-- The first underscore of `outputs_contract_created` ends the entity key: its kind is that of the
outputs which create contracts, and not one of the contract outputs. -/
theorem definition_iff_kind_contract_created :
    ∃ (definition : Definition) (kind : Kind), kind.variantKey? = some "contract_created" ∧
      kind.Names "outputs_contract_created" definition := by
  have read : (Kind.ofId? "outputs_contract_created").map Kind.variantKey? =
      some (some "contract_created") := by decide
  obtain ⟨kind, known, word⟩ := Option.map_eq_some_iff.mp read
  have agree := definition_iff_kind "outputs_contract_created"
  obtain ⟨definition, found⟩ := agree.1.mpr ⟨kind, known⟩
  exact ⟨definition, kind, word, agree.2 definition kind found known⟩

end Registry

end Topics
