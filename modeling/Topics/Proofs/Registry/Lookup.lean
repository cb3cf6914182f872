import Topics.Proofs.Registry.Tables

/-! A registry finds each of its definitions under the id, the entity key or the variant key that the
catalog gives it, and nothing under any other. -/

namespace Topics

namespace Registry

variable {registry : Registry} {definition base : Definition} {id key word : String}
  {error : TopicError}

/-- What is found under an id is the definition of the registry that has this id. -/
theorem definition_eq_ok :
    registry.definition id = .ok definition ↔
      definition ∈ registry.catalog.definitions ∧ definition.id = id := by
  have found : registry.tables.byId.get? id = some definition ↔
      definition ∈ registry.catalog.definitions ∧ definition.id = id := by
    rw [OrderedMap.get?_eq_some, byId_tables, List.mem_map]
    constructor
    · rintro ⟨_, listed, same⟩
      cases same
      exact ⟨listed, rfl⟩
    · rintro ⟨listed, rfl⟩
      exact ⟨definition, listed, rfl⟩
  rw [Registry.definition, ← found]
  cases registry.tables.byId.get? id <;> simp

/-- An id is refused exactly where no definition of the registry has it. -/
theorem definition_eq_error :
    registry.definition id = .error error ↔
      id ∉ registry.catalog.definitions.map Definition.id ∧ error = .unknownSubject id := by
  have ids : registry.tables.byId.keys = registry.catalog.definitions.map Definition.id := by
    rw [OrderedMap.keys, byId_tables, List.map_map]
    rfl
  have absent : registry.tables.byId.get? id = none ↔
      id ∉ registry.catalog.definitions.map Definition.id := by
    rw [← ids]
    exact lookupEntry_eq_none
  rw [Registry.definition, ← absent]
  cases registry.tables.byId.get? id <;> simp [eq_comm]

/-- What is found under an entity key is the base that is listed there. -/
theorem base_eq_ok : registry.base key = .ok base ↔ (key, base) ∈ registry.catalog := by
  rw [Registry.base, ← entities_tables, ← OrderedMap.get?_eq_some]
  cases registry.tables.entities.get? key <;> simp

/-- Only one base is listed under an entity key. -/
theorem base_unique {other : Definition} (listed : (key, base) ∈ registry.catalog)
    (listed' : (key, other) ∈ registry.catalog) : base = other :=
  Except.ok.inj ((base_eq_ok.mpr listed).symm.trans (base_eq_ok.mpr listed'))

/-- An entity key is refused exactly where no base is listed under it. -/
theorem base_eq_error :
    registry.base key = .error error ↔
      key ∉ registry.catalog.map Prod.fst ∧ error = .unknownEntity key := by
  have absent : registry.tables.entities.get? key = none ↔
      key ∉ registry.catalog.map Prod.fst := by
    rw [← entities_tables]
    exact lookupEntry_eq_none
  rw [Registry.base, ← absent]
  cases registry.tables.entities.get? key <;> simp [eq_comm]

/-- A variant is found under an entity key and its own key exactly where it is listed among the
variants of the base. -/
theorem variant_eq_ok :
    registry.variant key word = .ok definition ↔
      ∃ base, (key, base) ∈ registry.catalog ∧ (word, definition) ∈ base.variants := by
  rw [Registry.variant]
  cases found : registry.base key with
  | error error =>
    -- Without a base there are no variants.
    obtain ⟨absent, -⟩ := base_eq_error.mp found
    simp only [reduceCtorEq, false_iff]
    rintro ⟨base, listed, -⟩
    exact absent (List.mem_map_of_mem listed)
  | ok base =>
    have listed := base_eq_ok.mp found
    have distinct := (Catalog.passes_of_check registry.checked listed).nodup_keys
    -- The base is the only one under its key, and so is each of its variants.
    have only : (∃ base, (key, base) ∈ registry.catalog ∧ (word, definition) ∈ base.variants) ↔
        base.variant? word = some definition := by
      rw [Definition.variant?, lookupEntry_eq_some distinct]
      constructor
      · rintro ⟨base', listed', below⟩
        exact base_unique listed' listed ▸ below
      · exact fun below => ⟨base, listed, below⟩
    rw [only]
    cases below : base.variant? word <;> simp [below]

/-- A key that none of the variants of a base has is refused. -/
theorem variant_eq_unknown (listed : (key, base) ∈ registry.catalog)
    (absent : word ∉ base.variants.map Prod.fst) :
    registry.variant key word = .error (.unknownVariant key word) := by
  have none : base.variant? word = none := lookupEntry_eq_none.mpr absent
  simp only [Registry.variant, base_eq_ok.mpr listed, none]

/-- All that is asked of a registry about its definitions is answered from the catalog. -/
structure Answers (registry : Registry) (catalog : Catalog) : Prop where
  /-- Each base is followed by its variants, in the order of the catalog. -/
  listed : registry.definitions =
    catalog.flatMap fun (_, base) => base :: base.variants.map Prod.snd
  /-- No id, and so no definition, is listed twice. -/
  distinct : (registry.definitions.map Definition.id).Nodup
  /-- There are as many definitions as bases and variants. -/
  counted : registry.size =
    catalog.length + (catalog.flatMap fun (_, base) => base.variants).length
  /-- Each definition is found under its id. -/
  ids : ∀ definition ∈ catalog.definitions, registry.definition definition.id = .ok definition
  /-- Any other id is refused. -/
  otherIds : ∀ id ∉ catalog.definitions.map Definition.id,
    registry.definition id = .error (.unknownSubject id)
  /-- Each base is found under its entity key. -/
  keys : ∀ key base, (key, base) ∈ catalog → registry.base key = .ok base
  /-- Any other entity key is refused, alone and with the key of a variant. -/
  otherKeys : ∀ key ∉ catalog.map Prod.fst, registry.base key = .error (.unknownEntity key) ∧
    ∀ word, registry.variant key word = .error (.unknownEntity key)
  /-- Each variant is found under its key. -/
  words : ∀ key base, (key, base) ∈ catalog → ∀ word variant, (word, variant) ∈ base.variants →
    registry.variant key word = .ok variant
  /-- Any other key of a variant is refused. -/
  otherWords : ∀ key base, (key, base) ∈ catalog → ∀ word ∉ base.variants.map Prod.fst,
    registry.variant key word = .error (.unknownVariant key word)

/-- A catalog is refused exactly for the fault that its check finds. -/
theorem ofCatalog_eq_error {catalog : Catalog} {fault : CatalogError} :
    ofCatalog catalog = .error fault ↔ catalog.check = .error fault := by
  unfold ofCatalog
  split
  · rename_i passed
    simp [passed]
  · rename_i found failed
    simp [failed]

/-- There is a registry of a catalog exactly where the catalog passes its check. -/
theorem exists_ofCatalog {catalog : Catalog} :
    (∃ registry, ofCatalog catalog = .ok registry) ↔ catalog.check = .ok () := by
  constructor
  · rintro ⟨registry, accepted⟩
    obtain rfl := ofCatalog_eq_ok.mp accepted
    exact registry.checked
  · exact fun checked => ⟨⟨catalog, checked⟩, ofCatalog_eq_ok.mpr rfl⟩

/-- There are as many definitions as bases and variants. -/
theorem length_definitions (catalog : Catalog) :
    catalog.definitions.length =
      catalog.length + (catalog.flatMap fun (_, base) => base.variants).length := by
  induction catalog with
  | nil => rfl
  | cons entry rest ih =>
    -- A base and its variants come first, and then the definitions that are counted already.
    simp only [Catalog.definitions, List.flatMap_cons, List.length_append, List.length_cons,
      List.length_map] at ih ⊢
    omega

/-- The tables of a registry lose nothing of its catalog and add nothing to it: there is a registry
exactly where the catalog passes its check, and it answers from what the catalog lists. -/
theorem answers_of_ofCatalog (catalog : Catalog) :
    (∀ fault, ofCatalog catalog = .error fault ↔ catalog.check = .error fault) ∧
      ((∃ registry, ofCatalog catalog = .ok registry) ↔ catalog.check = .ok ()) ∧
      ∀ registry, ofCatalog catalog = .ok registry → registry.Answers catalog := by
  refine ⟨fun _ => ofCatalog_eq_error, exists_ofCatalog, fun registry accepted => ?_⟩
  obtain rfl := ofCatalog_eq_ok.mp accepted
  obtain ⟨-, -, distinct⟩ := (Catalog.check_eq_ok _).mp registry.checked
  rw [Catalog.allIds_eq] at distinct
  exact {
    listed := registry.definitions_eq
    distinct := by rwa [definitions_eq]
    counted := by
      rw [size, byId_tables, List.length_map]
      exact length_definitions registry.catalog
    ids := fun definition listed => definition_eq_ok.mpr ⟨listed, rfl⟩
    otherIds := fun id absent => definition_eq_error.mpr ⟨absent, rfl⟩
    keys := fun key base listed => base_eq_ok.mpr listed
    otherKeys := fun key absent => by
      have unknown := base_eq_error.mpr ⟨absent, rfl⟩
      exact ⟨unknown, fun word => by simp only [Registry.variant, unknown]⟩
    words := fun key base listed word variant below => variant_eq_ok.mpr ⟨base, listed, below⟩
    otherWords := fun key base listed word absent => variant_eq_unknown listed absent }

/-- The built-in registry has twenty-seven definitions, finds the coins among the inputs, and knows
of no gold there. -/
theorem answers_of_ofCatalog_builtin :
    ofCatalog Catalog.builtin = .ok builtin ∧ builtin.size = 27 ∧
      (∃ coin, builtin.variant "inputs" "coin" = .ok coin ∧
        builtin.definition "inputs_coin" = .ok coin) ∧
      builtin.variant "inputs" "gold" = .error (.unknownVariant "inputs" "gold") ∧
      builtin.definition "inputs_gold" = .error (.unknownSubject "inputs_gold") := by
  obtain ⟨-, -, answers⟩ := answers_of_ofCatalog Catalog.builtin
  have answer := answers builtin ofCatalog_builtin
  have inputs := Catalog.inputs_listed
  -- Coins are listed first among the kinds of inputs.
  let coin := (Builtin.inputs.variants.head (List.cons_ne_nil _ _)).2
  have below : ("coin", coin) ∈ Builtin.inputs.variants := List.mem_cons_self
  have listed : coin ∈ Catalog.builtin.definitions :=
    List.mem_flatMap.mpr ⟨_, inputs, List.mem_cons_of_mem _ (List.mem_map_of_mem below)⟩
  refine ⟨ofCatalog_builtin, answer.counted.trans rfl, ⟨coin, ?_, answer.ids coin listed⟩, ?_, ?_⟩
  · exact answer.words "inputs" _ inputs "coin" coin below
  · exact answer.otherWords "inputs" _ inputs "gold" (by decide)
  · exact answer.otherIds "inputs_gold" (by decide)

end Registry

end Topics
