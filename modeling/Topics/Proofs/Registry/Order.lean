import Topics.Proofs.Catalog.Order
import Topics.Proofs.Registry.Dispatch
import Topics.Proofs.Registry.Lookup

/-! Two registries of one catalog in different orders answer alike: what is listed first, and so is
tried first, makes no difference. -/

namespace Topics

/-- What is told of a resolution: the id of the definition and the values. -/
def Resolution.summary (found : Resolution) : String × FieldMap :=
  (found.definition.id, found.fields)

namespace Definition

variable {base base' : Definition} {variants : List (String × Definition)}

private theorem readTokens_with_variants (pairs : List (Segment × String)) (position : Nat)
    (values : FieldMap) :
    ({ base with variants } : Definition).readTokens position pairs values =
      base.readTokens position pairs values := by
  -- The position and the values change with each pair, so they are kept general.
  induction pairs generalizing position values with
  | nil => rfl
  | cons pair rest ih =>
    obtain ⟨segment, token⟩ := pair
    cases segment with
    | literal text => simp only [readTokens, ih]
    | placeholder name => simp only [readTokens, field?, ih]

/-- A topic is parsed in the same way whatever the order of the variants. -/
theorem Reorders.parse_eq (reorders : base.Reorders base') (topic : String) :
    base'.parse topic = base.parse topic := by
  obtain ⟨variants, -, rfl⟩ := reorders
  simp only [parse, readTokens_with_variants]
  rfl

/-- Each variant is found under its key whatever the order of the variants. -/
theorem Reorders.variant?_eq (reorders : base.Reorders base')
    (distinct : (base.variants.map Prod.fst).Nodup) : base'.variant? = base.variant? := by
  funext key
  exact (lookupEntry_eq_of_perm reorders.variants_perm distinct key).symm

end Definition

private theorem resolveAmong_alike {topic : String} {fault : Option TopicError}
    {definitions definitions' : List Definition}
    (alike : List.Forall₂ Definition.Reorders definitions definitions') :
    (resolveAmong topic fault definitions).map Resolution.summary =
      (resolveAmong topic fault definitions').map Resolution.summary := by
  -- The fault that is remembered changes with each definition, so it is kept general.
  induction alike generalizing fault with
  | nil => rfl
  | @cons definition definition' rest rest' here _ ih =>
    rw [resolveAmong, resolveAmong, here.parse_eq]
    cases definition.parse topic with
    | ok fields => simp [Except.map, Resolution.summary, here.id_eq]
    | error error => exact ih

namespace Registry

/-- Both registries give the same answers, where definitions are told apart by their ids. -/
structure AnswersAlike (registry registry' : Registry) : Prop where
  /-- The same base is found under an entity key, or the same error. -/
  bases : ∀ key, (registry.base key).map Definition.id = (registry'.base key).map Definition.id
  /-- The same variant is found under two keys, or the same error. -/
  variants : ∀ key word,
    (registry.variant key word).map Definition.id = (registry'.variant key word).map Definition.id
  /-- The same definition is found under an id, or the same error. -/
  definitions : ∀ id,
    (registry.definition id).map Definition.id = (registry'.definition id).map Definition.id
  /-- A topic is resolved to the same definition and the same values, or to the same error. -/
  resolutions : ∀ topic,
    (registry.resolve topic).map Resolution.summary =
      (registry'.resolve topic).map Resolution.summary

section

variable {registry registry' : Registry}
  (reorders : registry.catalog.Reorders registry'.catalog)

include reorders

private theorem base_error_alike {key : String} {error : TopicError}
    (refused : registry.base key = .error error) : registry'.base key = .error error := by
  -- The keys are the same but for their order.
  obtain ⟨absent, rfl⟩ := base_eq_error.mp refused
  exact base_eq_error.mpr ⟨mt reorders.keys.mem_iff.mpr absent, rfl⟩

private theorem base_alike (key : String) :
    (registry.base key).map Definition.id = (registry'.base key).map Definition.id := by
  -- Keys are listed once each, so what is listed under a key is what is found there.
  cases found : registry.base key with
  | ok base =>
    obtain ⟨base', listed, reordered⟩ := reorders.exists_base (base_eq_ok.mp found)
    rw [base_eq_ok.mpr listed, Except.map, Except.map, reordered.id_eq]
  | error error => rw [base_error_alike reorders found]

private theorem variant_alike (key word : String) :
    registry.variant key word = registry'.variant key word := by
  -- A variant is the same in both catalogs, not only up to some order.
  rw [variant, variant]
  cases found : registry.base key with
  | ok base =>
    have listed := base_eq_ok.mp found
    have distinct := (Catalog.passes_of_check registry.checked listed).nodup_keys
    obtain ⟨base', listed', reordered⟩ := reorders.exists_base listed
    rw [base_eq_ok.mpr listed']
    simp only [reordered.variant?_eq distinct]
  | error error => rw [base_error_alike reorders found]

private theorem definition_alike (id : String) :
    (registry.definition id).map Definition.id = (registry'.definition id).map Definition.id := by
  have ids := reorders.allIds
  rw [Catalog.allIds_eq, Catalog.allIds_eq] at ids
  cases found : registry.definition id with
  | ok definition =>
    obtain ⟨listed, rfl⟩ := definition_eq_ok.mp found
    -- The other catalog has a definition with this id as well.
    obtain ⟨definition', listed', same⟩ :=
      List.mem_map.mp (ids.mem_iff.mp (List.mem_map_of_mem listed))
    rw [definition_eq_ok.mpr ⟨listed', same⟩, Except.map, Except.map, same]
  | error error =>
    obtain ⟨absent, rfl⟩ := definition_eq_error.mp found
    have absent' := mt ids.mem_iff.mpr absent
    rw [definition_eq_error.mpr ⟨absent', rfl⟩]

private theorem resolve_alike (topic : String) :
    (registry.resolve topic).map Resolution.summary =
      (registry'.resolve topic).map Resolution.summary := by
  obtain ⟨each, distinct, -⟩ := (Catalog.check_eq_ok _).mp registry.checked
  obtain ⟨each', distinct', -⟩ := (Catalog.check_eq_ok _).mp registry'.checked
  have head := List.head?_eq_some_head (tokens_ne_nil topic)
  rw [resolve_eq, resolve_eq, resolveAmong_eq_readAmong, resolveAmong_eq_readAmong]
  -- In both catalogs only the base under the first token and one of its variants play a part.
  cases found : lookupEntry ((tokens topic).head (tokens_ne_nil topic)) registry.catalog with
  | none =>
    have absent := mt reorders.keys.mem_iff.mpr (lookupEntry_eq_none.mp found)
    rw [Catalog.readAmong_candidates_of_none each head found,
      Catalog.readAmong_candidates_of_none each' head (lookupEntry_eq_none.mpr absent)]
  | some base =>
    have listed := (lookupEntry_eq_some distinct).mp found
    obtain ⟨base', listed', reordered⟩ := reorders.exists_base listed
    have found' := (lookupEntry_eq_some distinct').mpr listed'
    have passes := each _ listed
    rw [Catalog.readAmong_candidates each distinct head found, passes.readAmong_entry,
      Catalog.readAmong_candidates each' distinct' head found', (each' _ listed').readAmong_entry,
      reordered.leadingLiterals_eq, reordered.variant?_eq passes.nodup_keys,
      ← resolveAmong_eq_readAmong, ← resolveAmong_eq_readAmong]
    -- The variant is the same, and the bases differ in the order of their variants.
    apply resolveAmong_alike
    refine List.rel_append ?_ (.cons reordered .nil)
    exact List.forall₂_same.mpr fun variant _ => .refl variant

end

/-- The order of a catalog and that of the variants within its bases make no difference: a catalog
is accepted exactly where it is accepted in another order, and the two registries answer alike. -/
theorem answersAlike_of_reorders {first second : Catalog} (reorders : first.Reorders second) :
    (first.check = .ok () ↔ second.check = .ok ()) ∧
      (first.check = .ok () → ∃ registry registry', ofCatalog first = .ok registry ∧
        ofCatalog second = .ok registry' ∧ registry.AnswersAlike registry') := by
  have both := reorders.check_iff
  refine ⟨both, fun checked => ?_⟩
  let registry : Registry := ⟨first, checked⟩
  let registry' : Registry := ⟨second, both.mp checked⟩
  have reordered : registry.catalog.Reorders registry'.catalog := reorders
  refine ⟨registry, registry', ofCatalog_eq_ok.mpr rfl, ofCatalog_eq_ok.mpr rfl, ?_⟩
  exact {
    bases := base_alike reordered
    variants := fun key word => by rw [variant_alike reordered]
    definitions := definition_alike reordered
    resolutions := resolve_alike reordered }

/-- The built-in catalog is accepted backwards as well, where coins stand last among the inputs and
are still found. -/
theorem answersAlike_of_reorders_builtin :
    Catalog.builtin.Reorders Catalog.builtin.backwards ∧ ∃ registry,
      ofCatalog Catalog.builtin.backwards = .ok registry ∧ builtin.AnswersAlike registry ∧
      (registry.variant "inputs" "coin").map Definition.id = .ok "inputs_coin" := by
  have reorders := Catalog.reorders_backwards Catalog.builtin
  obtain ⟨-, answers⟩ := answersAlike_of_reorders reorders
  obtain ⟨registry, registry', accepted, accepted', alike⟩ := answers builtin.checked
  obtain rfl : registry = builtin := Except.ok.inj (accepted.symm.trans ofCatalog_builtin)
  refine ⟨reorders, registry', accepted', alike, ?_⟩
  -- In the order of the built-in catalog, coins are listed first among the inputs.
  rw [← alike.variants, variant_eq_ok.mpr ⟨_, Catalog.inputs_listed, List.mem_cons_self⟩]
  rfl

end Registry

end Topics
