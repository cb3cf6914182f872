import Topics.Proofs.Subscription
import Mathlib.Data.List.Perm.Basic

/-! A payload asks for the same whatever the order of its parameters, and whatever nulls stand among
them under the names of fields. -/

namespace Topics

variable {definition : Definition} {fields fields' : FieldMap} {params params' : OrderedMap Json}
  {catalog : Catalog} {registry : Registry} {text : String}

namespace Payload

variable {first second payload : Payload}

/-- The parameters of a payload: the entries of its object, and none where it has null. -/
inductive HasParams : Payload → OrderedMap Json → Prop where
  | object (subject : String) (params : OrderedMap Json) :
      HasParams ⟨subject, .object params.entries⟩ params
  | null (subject : String) : HasParams ⟨subject, .null⟩ .empty

/-- The parameters that are not null, in order. -/
def setParams (params : OrderedMap Json) : List (String × Json) :=
  params.entries.filter fun param => !param.2.isNull

/-- Parameters that differ for a definition only in their order and in which fields they set to
null. -/
structure SetAlike (definition : Definition) (params params' : OrderedMap Json) : Prop where
  /-- The same parameters are not null, in some order. -/
  set : (setParams params).Perm (setParams params')
  /-- Each null of the first ones names a field. -/
  nulls : ∀ name, params.get? name = some .null → name ∈ definition.fieldNames
  /-- Each null of the second ones names a field. -/
  nulls' : ∀ name, params'.get? name = some .null → name ∈ definition.fieldNames

/-- What differs only so does so in both directions. -/
theorem SetAlike.symm (alike : SetAlike definition params params') :
    SetAlike definition params' params :=
  ⟨alike.set.symm, alike.nulls', alike.nulls⟩

/-- The names of parameters that are not null are distinct. -/
theorem nodup_setParams (params : OrderedMap Json) : ((setParams params).map Prod.fst).Nodup :=
  params.distinct.sublist (List.filter_sublist.map Prod.fst)

/-- The fields of a payload come from its parameters that are not null, where each null names a
field. -/
theorem fields_eq_ok (has : HasParams payload params)
    (nulls : ∀ name, params.get? name = some .null → name ∈ definition.fieldNames) :
    payload.fields definition = .ok fields ↔
      List.Forall₂ definition.ReadsParam (setParams params) fields.entries := by
  have named : ∀ param ∈ params.entries, param.2.isNull = true →
      param.1 ∈ definition.fieldNames := by
    rintro ⟨name, param⟩ member null
    cases param <;> cases null
    exact nulls name (params.get?_eq_some.mpr member)
  -- Without an object there is nothing to read.
  have read : payload.fields definition = .ok fields ↔
      readParams definition params.entries .empty = .ok fields := by
    cases has <;> rfl
  rw [read, readParams_eq_ok]
  simp only [Definition.readsParams_iff_filter, and_iff_right named]
  constructor
  · rintro ⟨entries, each, rfl⟩
    have names := map_fst_of_forall₂ (fun _ _ read => read.1) each
    rwa [OrderedMap.entries_insertAll (names ▸ nodup_setParams params)]
  · intro each
    exact ⟨fields.entries, each, fields.insertAll_entries.symm⟩

/-- Payloads whose parameters are set alike fix the same fields, perhaps in another order. -/
theorem fields_of_setAlike (alike : SetAlike definition params params')
    (has : HasParams first params) (has' : HasParams second params')
    (read : first.fields definition = .ok fields) :
    ∃ fields', second.fields definition = .ok fields' ∧
      ∀ name, fields.get? name = fields'.get? name := by
  have each := (fields_eq_ok has alike.nulls).mp read
  -- Parameters in another order are read as entries in another order.
  obtain ⟨entries, each', permuted⟩ := List.perm_comp_forall₂ alike.set.symm each
  have distinct : (entries.map Prod.fst).Nodup := by
    rw [map_fst_of_forall₂ (fun _ _ read => read.1) each']
    exact nodup_setParams params'
  refine ⟨⟨entries, distinct⟩, (fields_eq_ok has' alike.nulls').mpr each', fun name => ?_⟩
  exact lookupEntry_eq_of_perm permuted.symm fields.distinct name

/-- What is asked for with some fields does not depend on their order. -/
theorem AsksFor.congr (same : ∀ name, fields.get? name = fields'.get? name)
    (asked : AsksFor definition fields text) : AsksFor definition fields' text := by
  -- Whether there are any fields shows in the look-ups too.
  have empty : fields.isEmpty = fields'.isEmpty := by
    rw [Bool.eq_iff_iff, OrderedMap.isEmpty_iff, OrderedMap.isEmpty_iff]
    simp only [same]
  obtain ⟨every, some_field⟩ := asked
  rw [empty] at every some_field
  exact ⟨every, fun placed => Definition.build_congr same (some_field placed)⟩

private theorem pattern_of_setAlike (listed : definition ∈ registry.catalog.definitions)
    (asks : first.subject = definition.id) (asks' : second.subject = definition.id)
    (has : HasParams first params) (has' : HasParams second params')
    (alike : SetAlike definition params params') (asked : first.pattern registry = .ok text) :
    second.pattern registry = .ok text := by
  obtain ⟨fields, read, wanted⟩ := (pattern_eq_ok listed asks).mp asked
  obtain ⟨fields', read', same⟩ := fields_of_setAlike alike has has' read
  exact (pattern_eq_ok listed asks').mpr ⟨fields', read', AsksFor.congr same wanted⟩

/-- Payloads for one definition of an accepted catalog whose parameters are set alike ask for the same
pattern, or for none. -/
theorem pattern_iff_of_setAlike (accepted : Registry.ofCatalog catalog = .ok registry)
    (listed : definition ∈ catalog.definitions) (asks : first.subject = definition.id)
    (asks' : second.subject = definition.id) (has : HasParams first params)
    (has' : HasParams second params') (alike : SetAlike definition params params')
    (text : String) : first.pattern registry = .ok text ↔ second.pattern registry = .ok text := by
  obtain rfl := Registry.ofCatalog_eq_ok.mp accepted
  exact ⟨pattern_of_setAlike listed asks asks' has has' alike,
    pattern_of_setAlike listed asks' asks has' has alike.symm⟩

/-- Two heights in either order, with a null producer or without one, ask for the same blocks, and
nulls alone ask for all blocks as no parameters do. -/
theorem pattern_iff_of_setAlike_blocks :
    let height : String × Json := ("height", .string "42")
    let layer : String × Json := ("da_height", .number (.natural 7))
    let producer : String × Json := ("producer", .null)
    let ask (params : Json) : Payload := ⟨"blocks", params⟩
    (ask (.object [producer, height, layer])).pattern .builtin = .ok "blocks.*.7.42" ∧
      (ask (.object [layer, height])).pattern .builtin = .ok "blocks.*.7.42" ∧
      (ask .null).pattern .builtin = .ok "blocks.>" ∧
      (ask (.object [producer])).pattern .builtin = .ok "blocks.>" := by
  intro height layer producer ask
  have accepted := Registry.ofCatalog_builtin
  have listed := Catalog.blocks_listed
  let padded : OrderedMap Json := ⟨[producer, height, layer], by decide⟩
  let plain : OrderedMap Json := ⟨[layer, height], by decide⟩
  let unset : OrderedMap Json := ⟨[producer], by decide⟩
  have named : ∀ name, name = "producer" → name ∈ Builtin.blocks.fieldNames := by
    rintro _ rfl
    decide
  -- The producer is the only null in any of them.
  have nulls : ∀ name, padded.get? name = some .null → name ∈ Builtin.blocks.fieldNames := by
    intro name held
    have member := (padded.get?_eq_some).mp held
    exact named name (by simpa [padded, producer, height, layer] using member)
  have nulls' : ∀ name, plain.get? name = some .null → name ∈ Builtin.blocks.fieldNames := by
    intro name held
    have member := (plain.get?_eq_some).mp held
    simp [plain, height, layer] at member
  have nulls'' : ∀ name, unset.get? name = some .null → name ∈ Builtin.blocks.fieldNames := by
    intro name held
    have member := (unset.get?_eq_some).mp held
    exact named name (by simpa [unset, producer] using member)
  have alike : SetAlike Builtin.blocks padded plain := ⟨List.Perm.swap _ _ _, nulls, nulls'⟩
  have alike' : SetAlike Builtin.blocks .empty unset := ⟨List.Perm.refl _, nofun, nulls''⟩
  have asked : (ask (.object plain.entries)).pattern .builtin = .ok "blocks.*.7.42" := by
    decide +kernel
  have asked' : (ask .null).pattern .builtin = .ok "blocks.>" := by decide +kernel
  have same := pattern_iff_of_setAlike accepted listed rfl rfl (.object "blocks" padded)
    (.object "blocks" plain) alike
  have same' := pattern_iff_of_setAlike accepted listed rfl rfl (.null "blocks")
    (.object "blocks" unset) alike'
  exact ⟨(same _).mpr asked, asked, asked', (same' _).mp asked'⟩

end Payload

end Topics
