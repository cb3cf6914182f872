import Topics.Proofs.Catalog.WellFormed
import Topics.Proofs.OrderedMap
import Topics.Registry.Builtin

/-! The tables of a checked catalog have one entry for each base and one for each definition, in the
order of the catalog, because no key and no id is entered twice. -/

namespace Topics

namespace Tables

/-- A definition under its own id. -/
def identified (definition : Definition) : String × Definition := (definition.id, definition)

/-- Entering a base puts the base and then its variants under their ids. -/
theorem byId_enter (tables : Tables) (key : String) (base : Definition) :
    (tables.enter key base).byId =
      tables.byId.insertAll ((base :: base.variants.map Prod.snd).map identified) := by
  simp [enter, identified, OrderedMap.insertAll, List.foldl_map]

/-- Entering the entries of a catalog puts the bases under their keys and all definitions under
their ids. -/
theorem foldl_enter (tables : Tables) (catalog : Catalog) :
    catalog.foldl (fun held (key, base) => held.enter key base) tables =
      ⟨tables.entities.insertAll catalog,
        tables.byId.insertAll (catalog.definitions.map identified)⟩ := by
  -- What has been entered before the rest of the catalog is kept general.
  induction catalog generalizing tables with
  | nil => rfl
  | cons entry rest ih =>
    obtain ⟨key, base⟩ := entry
    rw [List.foldl_cons, ih, byId_enter]
    simp only [Catalog.definitions, List.flatMap_cons, List.map_append, OrderedMap.insertAll_append]
    rfl

end Tables

namespace Registry

/-- A catalog is accepted exactly as the catalog of its registry. -/
theorem ofCatalog_eq_ok {catalog : Catalog} {registry : Registry} :
    ofCatalog catalog = .ok registry ↔ registry.catalog = catalog := by
  unfold ofCatalog
  constructor
  · intro accepted
    split at accepted
    · cases accepted
      rfl
    · cases accepted
  · rintro rfl
    -- What a registry holds has passed its check.
    split
    · rfl
    · rename_i error failed
      simp [registry.checked] at failed

/-- The built-in catalog is accepted as that of the built-in registry. -/
theorem ofCatalog_builtin : ofCatalog Catalog.builtin = .ok builtin := ofCatalog_eq_ok.mpr rfl

variable (registry : Registry)

/-- The bases of a registry are entered once each, in the order of the catalog. -/
theorem entities_tables : registry.tables.entities.entries = registry.catalog := by
  obtain ⟨-, distinct, -⟩ := (Catalog.check_eq_ok _).mp registry.checked
  rw [tables, Catalog.tables, Tables.foldl_enter]
  exact OrderedMap.entries_insertAll distinct

/-- The definitions of a registry are entered once each, in the order of the catalog. -/
theorem byId_tables :
    registry.tables.byId.entries = registry.catalog.definitions.map Tables.identified := by
  obtain ⟨-, -, distinct⟩ := (Catalog.check_eq_ok _).mp registry.checked
  rw [Catalog.allIds_eq] at distinct
  rw [tables, Catalog.tables, Tables.foldl_enter]
  -- The ids under which definitions are entered are their own.
  have ids : ((registry.catalog.definitions.map Tables.identified).map Prod.fst).Nodup := by
    simpa [Function.comp_def, Tables.identified] using distinct
  exact OrderedMap.entries_insertAll ids

/-- The definitions of a registry are those of its catalog. -/
theorem definitions_eq : registry.definitions = registry.catalog.definitions := by
  rw [definitions, byId_tables, List.map_map]
  exact List.map_id _

/-- A topic is resolved by trying the definitions of the catalog on it. -/
theorem resolve_eq (topic : String) :
    registry.resolve topic = resolveAmong topic none registry.catalog.candidates := by
  rw [resolve, entities_tables]

end Registry

end Topics
