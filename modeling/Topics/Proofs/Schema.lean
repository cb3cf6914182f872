import Topics.Proofs.Catalog.Order
import Topics.Proofs.Registry.Lookup
import Topics.Schema
import Mathlib.Data.List.Basic

/-! The schema tells the catalog: names that are not repeated stand in an object as they were listed,
and from the objects of two definitions each part of them can be compared. -/

namespace Topics

namespace Json

variable {name : String} {first second : List (String × Json)}

/-- Entries under distinct names are the entries of their object. -/
theorem ofEntries_eq_object (distinct : (first.map Prod.fst).Nodup) :
    ofEntries first = .object first := by
  -- No name is put again, so each entry comes behind the ones in front of it.
  have kept : (OrderedMap.empty.insertAll first).entries = first :=
    OrderedMap.entries_insertAll distinct
  rw [ofEntries, kept]

/-- Objects of entries under distinct names differ where the entries do. -/
theorem eq_of_ofEntries (distinct : (first.map Prod.fst).Nodup)
    (distinct' : (second.map Prod.fst).Nodup) (same : ofEntries first = ofEntries second) :
    first = second := by
  rw [ofEntries_eq_object distinct, ofEntries_eq_object distinct'] at same
  exact Json.object.inj same

/-- An object that is left out where it would be empty still tells its entries. -/
theorem eq_of_unlessEmpty (distinct : (first.map Prod.fst).Nodup)
    (distinct' : (second.map Prod.fst).Nodup)
    (same : unlessEmpty name first = unlessEmpty name second) : first = second := by
  cases first <;> cases second
  case nil.nil => rfl
  -- Only one of two objects is left out.
  case nil.cons => cases same
  case cons.nil => cases same
  case cons.cons =>
    refine eq_of_ofEntries distinct distinct' ?_
    simpa [unlessEmpty] using same

end Json

/-- A type is known under its name. -/
theorem FieldType.ofName_name (type : FieldType) : ofName type.name = .ok type := by
  rcases type with kind | kind | vocabulary
  case identifier => cases kind <;> rfl
  case integer => cases kind <;> rfl
  case label => cases vocabulary <;> rfl

/-- Types with the same name are the same type. -/
theorem FieldType.name_injective : Function.Injective name := by
  intro first second same
  -- Both are the type that is known under the name.
  have known := ofName_name first
  rw [same, ofName_name second] at known
  exact (Except.ok.inj known).symm

/-- The schemas of two fields are the same only where the fields are. -/
theorem FieldSpec.schema_injective : Function.Injective FieldSpec.schema := by
  intro first second same
  cases first
  cases second
  simp only [FieldSpec.schema, Prod.mk.injEq, Json.object.injEq, List.cons.injEq, Json.string.injEq,
    true_and, and_true] at same
  obtain ⟨rfl, types, rfl⟩ := same
  rw [FieldType.name_injective types]

namespace Definition

variable {first second : Definition}

/-- The schemas of definitions stand under the keys of the definitions. -/
theorem schemas_eq_map (entries : List (String × Definition)) :
    schemas entries = entries.map fun entry => (entry.1, entry.2.schema) := by
  induction entries with
  | nil => rfl
  | cons entry rest ih => rw [schemas, ih, List.map_cons]

private theorem nodup_schemas {entries : List (String × Definition)}
    (distinct : (entries.map Prod.fst).Nodup) : ((schemas entries).map Prod.fst).Nodup := by
  -- The keys of the definitions are those of their schemas.
  rw [schemas_eq_map, List.map_map]
  exact distinct

private theorem map_fst_schema (definition : Definition) :
    (definition.fields.map FieldSpec.schema).map Prod.fst = definition.fieldNames := by
  -- A field's schema stands under the name of the field.
  rw [List.map_map]
  rfl

/-- Definitions under keys follow from their schemas, where each definition does. -/
theorem eq_of_schemas {entries entries' : List (String × Definition)}
    (each : ∀ entry ∈ entries, ∀ entry' ∈ entries',
      entry.2.schema = entry'.2.schema → entry.2 = entry'.2)
    (same : schemas entries = schemas entries') : entries = entries' := by
  -- Both lists are walked through together.
  induction entries generalizing entries' with
  | nil =>
    cases entries' with
    | nil => rfl
    | cons entry' rest' => cases same
  | cons entry rest ih =>
    cases entries' with
    | nil => cases same
    | cons entry' rest' =>
      obtain ⟨key, definition⟩ := entry
      obtain ⟨key', definition'⟩ := entry'
      simp only [schemas, List.cons.injEq, Prod.mk.injEq] at same
      obtain ⟨⟨rfl, alike⟩, behind⟩ := same
      obtain rfl : definition = definition' :=
        each _ List.mem_cons_self _ List.mem_cons_self alike
      congr 1
      refine ih (fun entry member entry' member' => ?_) behind
      exact each entry (List.mem_cons_of_mem _ member) entry' (List.mem_cons_of_mem _ member')

/-- A definition's own entries come first, and its variants behind them. -/
theorem schema_eq (definition : Definition) :
    definition.schema = .object (definition.ownSchema ++
      Json.unlessEmpty "variants" (schemas definition.variants)) := by
  cases definition
  rw [schema]

/-- A definition in which nothing is listed twice: no field, no variant, and so on in each
variant. -/
inductive Legible : Definition → Prop
  /-- The names of the fields and those of the variants are distinct, and the variants legible. -/
  | intro {definition : Definition} (fields : definition.fieldNames.Nodup)
    (keys : (definition.variants.map Prod.fst).Nodup)
    (below : ∀ entry ∈ definition.variants, Legible entry.2) : Legible definition

/-- Legible definitions with the same schema are the same definition. -/
theorem Legible.eq_of_schema (legible : first.Legible) (legible' : second.Legible)
    (same : first.schema = second.schema) : first = second := by
  -- The induction goes down the variants of the first definition; the second one is kept general.
  induction legible generalizing second with
  | @intro first names keys _ ih =>
    obtain ⟨names', keys', below'⟩ := legible'
    rw [schema_eq, schema_eq, Json.object.injEq] at same
    -- Both objects begin with the same number of own entries, under the same names.
    obtain ⟨own, behind⟩ := List.append_inj same rfl
    simp only [ownSchema, List.cons.injEq, Prod.mk.injEq, Json.string.injEq, true_and, and_true]
      at own
    obtain ⟨id, entity, subject, format, wildcard, listed⟩ := own
    -- Fields are listed once each, so that none of them is merged into another.
    have fields : first.fields = second.fields := by
      rw [← map_fst_schema] at names names'
      have entries := Json.eq_of_ofEntries names names' listed
      exact List.map_injective_iff.mpr FieldSpec.schema_injective entries
    -- The same holds of variants, and their own schemas are the same by pairs.
    have variants : first.variants = second.variants := by
      have entries := Json.eq_of_unlessEmpty (nodup_schemas keys) (nodup_schemas keys') behind
      refine eq_of_schemas (fun entry member entry' member' alike => ?_) entries
      exact ih entry member (below' entry' member') alike
    cases first
    cases second
    rw [mk.injEq]
    exact ⟨id, entity, subject, format, wildcard, fields, variants⟩

end Definition

/-- The base of an entry that passes its check is legible. -/
theorem Catalog.EntryPasses.legible {key : String} {base : Definition}
    (passes : EntryPasses key base) : base.Legible := by
  refine .intro passes.base_wellFormed.distinct passes.nodup_keys fun entry listed => ?_
  -- A variant lists no variants of its own.
  have leaf : entry.2.variants = [] := (passes.refines listed).1
  exact .intro (passes.variant_wellFormed listed).distinct (by simp [leaf]) (by simp [leaf])

namespace Registry

/-- The schema of a registry has the bases of the catalog under their keys. -/
theorem schema_eq (registry : Registry) :
    registry.schema = .object (Definition.schemas registry.catalog) := by
  obtain ⟨-, distinct, -⟩ := (Catalog.check_eq_ok _).mp registry.checked
  -- Each entity key is looked up again, and its own base is found.
  have entries : (registry.entityKeys.filterMap fun key =>
      (registry.base key).toOption.map fun base => (key, base.schema)) =
      Definition.schemas registry.catalog := by
    rw [entityKeys, OrderedMap.keys, entities_tables, List.filterMap_map, Definition.schemas_eq_map,
      ← List.filterMap_eq_map]
    apply List.filterMap_congr
    intro entry listed
    simp [base_eq_ok.mpr listed, Except.toOption]
  rw [schema, entries, Json.ofEntries_eq_object (Definition.nodup_schemas distinct)]

/-- Two accepted catalogs have the same schema only where they are the same catalog. -/
theorem schema_eq_iff {first second : Catalog} {registry registry' : Registry}
    (accepted : ofCatalog first = .ok registry) (accepted' : ofCatalog second = .ok registry') :
    registry.schema = registry'.schema ↔ first = second := by
  obtain rfl := ofCatalog_eq_ok.mp accepted
  obtain rfl := ofCatalog_eq_ok.mp accepted'
  constructor
  · -- The documents list the schemas of the bases, in the order of the catalogs.
    intro same
    rw [schema_eq, schema_eq, Json.object.injEq] at same
    refine Definition.eq_of_schemas (fun entry listed entry' listed' alike => ?_) same
    -- Both bases have passed their check, so that nothing in them is listed twice.
    have legible := (Catalog.passes_of_check registry.checked listed).legible
    have legible' := (Catalog.passes_of_check registry'.checked listed').legible
    exact legible.eq_of_schema legible' alike
  · intro same
    rw [schema_eq, schema_eq, same]

/-- The built-in catalog and the same one from its end have different schemas. -/
theorem schema_eq_iff_backwards :
    ∃ registry, ofCatalog Catalog.builtin.backwards = .ok registry ∧
      registry.schema ≠ builtin.schema := by
  have checked : Catalog.builtin.backwards.check = .ok () :=
    (Catalog.reorders_backwards _).check_iff.mp Catalog.check_builtin
  obtain ⟨registry, accepted⟩ := exists_ofCatalog.mpr checked
  refine ⟨registry, accepted, fun same => ?_⟩
  have catalogs := (schema_eq_iff accepted ofCatalog_builtin).mp same
  -- Already the entity keys stand in another order.
  exact absurd (congrArg (List.map Prod.fst) catalogs) (by decide)

end Registry

end Topics
