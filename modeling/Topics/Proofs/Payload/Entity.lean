import Topics.Proofs.Kind
import Topics.Proofs.Subscription

/-! The patterns of a payload start with the entity key of its definition, and the payload tells this
key from the id exactly where the id is made of it. -/

namespace Topics

variable {definition base : Definition} {fields : FieldMap} {catalog : Catalog} {registry : Registry}
  {key text : String}

namespace Payload

variable {payload : Payload}

/-- An id without an underscore is its own entity key. -/
theorem entityKey_of_free (free : '_' ∉ payload.subject.toList) :
    payload.entityKey = payload.subject := by
  have front := takeWhile_append free [] (by simp)
  rw [List.append_nil] at front
  rw [entityKey, front, String.ofList_toList]

/-- The first underscore of an id ends the entity key. -/
theorem entityKey_of_append (free : '_' ∉ key.toList) {word : String}
    (shape : payload.subject = key ++ "_" ++ word) : payload.entityKey = key := by
  -- Further underscores belong to the word.
  have chars : payload.subject.toList = key.toList ++ '_' :: word.toList := by simp [shape]
  rw [entityKey, chars, takeWhile_append free _ (by simp), String.ofList_toList]

/-- A key without underscores is the entity key of the ids that are this key or start with it and an
underscore. -/
theorem entityKey_eq_iff :
    payload.entityKey = key ↔
      '_' ∉ key.toList ∧
        (payload.subject = key ∨ ∃ word, payload.subject = key ++ "_" ++ word) := by
  constructor
  · rintro rfl
    by_cases divided : '_' ∈ payload.subject.toList
    · -- The key is what stands in front of the first underscore.
      obtain ⟨front, back, whole, free⟩ := exists_divided (by decide : "_".toList = ['_']) divided
      rw [entityKey_of_append free whole]
      exact ⟨free, Or.inr ⟨_, whole⟩⟩
    · rw [entityKey_of_free divided]
      exact ⟨divided, Or.inl rfl⟩
  · rintro ⟨free, rfl | ⟨word, shape⟩⟩
    · exact entityKey_of_free free
    · exact entityKey_of_append free shape

/-- What is asked for with some fields starts with the leading literals of the definition. -/
theorem AsksFor.leading (formed : definition.WellFormed)
    (asked : AsksFor definition fields text) : definition.leadingLiterals <+: tokens text := by
  obtain ⟨every, some_field⟩ := asked
  cases none : fields.isEmpty with
  | true =>
    rw [every none, formed.tokens_wildcard]
    exact List.prefix_append _ _
  | false =>
    obtain ⟨more, split, -⟩ := Definition.leading_of_build (some_field none)
    rw [split]
    exact List.prefix_append _ _

/-- Each pattern of a payload starts with the key under which its definition, or the base of this
one, is listed. -/
theorem head?_pattern (listed : (key, base) ∈ registry.catalog)
    (place : definition = base ∨ ∃ word, (word, definition) ∈ base.variants)
    (asks : payload.subject = definition.id) (asked : payload.pattern registry = .ok text) :
    (tokens text).head? = some key := by
  have passes := Catalog.passes_of_check registry.checked listed
  have member := Catalog.mem_candidates_entry.mpr place
  have known := Catalog.mem_definitions.mpr ⟨key, base, listed, place⟩
  obtain ⟨fields, -, wanted⟩ := (pattern_eq_ok known asks).mp asked
  -- The key is the first of the leading literals, which no fields change.
  exact passes.head_of_leading member (AsksFor.leading (passes.wellFormed member) wanted)

/-- The patterns of a payload start with the entity key of its definition, which is the one that the
payload tells from the id exactly where it has no underscore and the id is this key, or starts with
it and an underscore. -/
theorem entityKey_iff_id (accepted : Registry.ofCatalog catalog = .ok registry)
    (listed : (key, base) ∈ catalog)
    (place : definition = base ∨ ∃ word, (word, definition) ∈ base.variants)
    (asks : payload.subject = definition.id) :
    (∀ text, payload.pattern registry = .ok text → (tokens text).head? = some key) ∧
      (payload.entityKey = key ↔ '_' ∉ key.toList ∧
        (definition.id = key ∨ ∃ word, definition.id = key ++ "_" ++ word)) := by
  obtain rfl := Registry.ofCatalog_eq_ok.mp accepted
  refine ⟨fun text asked => head?_pattern listed place asks asked, ?_⟩
  rw [entityKey_eq_iff, asks]

/-- The entity key of the outputs that create contracts ends in front of the first underscore of
their id. -/
theorem entityKey_iff_id_contract_created :
    let payload : Payload := ⟨"outputs_contract_created", .null⟩
    payload.entityKey = "outputs" ∧ payload.pattern .builtin = .ok "outputs.contract_created.>" ∧
      (tokens "outputs.contract_created.>").head? = some "outputs" := by
  intro payload
  have outputs : ("outputs", Builtin.outputs) ∈ Catalog.builtin := by simp [Catalog.builtin]
  -- They are listed last among the outputs.
  let created := (Builtin.outputs.variants.getLast (List.cons_ne_nil _ _)).2
  have below : ("contract_created", created) ∈ Builtin.outputs.variants :=
    List.getLast_mem (List.cons_ne_nil _ _)
  have asked : payload.pattern .builtin = .ok "outputs.contract_created.>" := by decide +kernel
  have asks : payload.subject = created.id := rfl
  obtain ⟨heads, key⟩ :=
    entityKey_iff_id Registry.ofCatalog_builtin outputs (Or.inr ⟨_, below⟩) asks
  exact ⟨key.mpr ⟨by decide, Or.inr ⟨"contract_created", rfl⟩⟩, asked, heads _ asked⟩

/-- In the built-in catalog, each pattern of a payload starts with the payload's entity key. -/
theorem head?_pattern_builtin (listed : definition ∈ Catalog.builtin.definitions)
    (asks : payload.subject = definition.id) (asked : payload.pattern .builtin = .ok text) :
    (tokens text).head? = some payload.entityKey := by
  obtain ⟨key, base, entry, place⟩ := Catalog.mem_definitions.mp listed
  rw [head?_pattern entry place asks asked]
  obtain ⟨family, rfl, rfl⟩ := Family.mem_builtin.mp entry
  -- Ids are made of the entity keys, none of which has an underscore.
  have free := family.underscore_not_mem_key
  refine congrArg some (entityKey_eq_iff.mpr ⟨free, ?_⟩).symm
  rcases place with rfl | ⟨word, below⟩
  · exact Or.inl (asks.trans family.id_base)
  · exact Or.inr ⟨word, asks.trans (family.id_variant _ below)⟩

end Payload

namespace Catalog

open Definition (family)

/-- Coins, and pools of coins under a key with an underscore. -/
def pools : Catalog :=
  let asset : FieldSpec := ⟨"asset", .identifier .assetId, "The asset of the coin"⟩
  let index : FieldSpec := ⟨"index", .integer .u32, "The index of the pool"⟩
  [("coin", family "coin" "Coin" "CoinSubject" ["coin"] [asset] []),
    ("coin_pools", family "coin_pools" "CoinPool" "CoinPoolsSubject" ["coin_pools"] [index] [])]

/-- The catalog of coins and pools is accepted. -/
theorem check_pools : pools.check = .ok () := by
  refine (check_eq_ok _).mpr ⟨?_, by decide +kernel, by decide +kernel⟩
  -- Each base has its key and one field.
  intro entry member
  simp only [pools, List.mem_cons, List.not_mem_nil, or_false] at member
  rcases member with rfl | rfl
  · exact entryPasses_single (by decide +kernel)
  · exact entryPasses_single (by decide +kernel)

/-- A payload for pools of coins has the entity key of coins, though its pattern does not start with
it. -/
theorem entityKey_pools :
    let registry : Registry := ⟨pools, check_pools⟩
    let payload : Payload := ⟨"coin_pools", .null⟩
    Registry.ofCatalog pools = .ok registry ∧
      (∃ base, ("coin_pools", base) ∈ pools ∧ base.id = payload.subject) ∧
      payload.entityKey = "coin" ∧ payload.pattern registry = .ok "coin_pools.>" ∧
      (tokens "coin_pools.>").head? = some "coin_pools" := by
  intro registry payload
  exact ⟨Registry.ofCatalog_eq_ok.mpr rfl, ⟨_, List.mem_cons_of_mem _ List.mem_cons_self, rfl⟩,
    by decide, by decide +kernel, by decide +kernel⟩

end Catalog

end Topics
