import Topics.Proofs.Catalog.Refinement
import Topics.Proofs.Field.Codec
import Topics.Registry

/-! A catalog passes its check exactly when it is well formed: what the check finds out step by step
can be said of the tokens of the formats. -/

namespace Topics

/-- A token that is read as a value is no placeholder. -/
theorem Segment.ofToken_of_decode {type : FieldType} {value : Value} {token : String}
    (read : type.decode token = .ok value) : ofToken token = literal token := by
  unfold ofToken
  split
  · rename_i inner shape
    -- An opening brace is no word character.
    exact absurd (FieldType.isWordCharacter_of_decode read '{' (by simp [shape])) (by decide)
  · rfl

namespace Definition

variable {base variant : Definition} {key : String} {field : FieldSpec} {shared own : List String}

/-- The tokens of a base and a variant side by side: the same literals, a field in the one and the
key in the other, the same fields behind it, and then more in the variant only. -/
structure Fixes (base : Definition) (key : String) (variant : Definition) (field : FieldSpec)
    (shared own : List String) : Prop where
  /-- The base declares the field. -/
  declared : base.field? field.name = some field
  /-- The key is a value of the field. -/
  keyed : ∃ value, field.type.decode key = .ok value
  /-- The base has the field and the shared ones behind its own literals, and nothing else. -/
  base_tokens : tokens base.format =
    base.leadingLiterals ++ placeholderToken field.name :: shared.map placeholderToken
  /-- The variant has the key in the place of the field. -/
  variant_tokens : tokens variant.format =
    base.leadingLiterals ++ key :: (shared.map placeholderToken ++ own)
  /-- No literal stands right behind the key. -/
  behind : ∀ token ∈ (shared.map placeholderToken ++ own).head?,
    ∃ name, token = placeholderToken name
  /-- Shared fields have the same types. -/
  types : ∀ name ∈ shared, (base.field? name).map FieldSpec.type =
    (variant.field? name).map FieldSpec.type

/-- What is said of the segments of a base and a variant holds of their tokens. -/
theorem Refines.fixes {own : List Segment} (refines : base.Refines key variant field shared own) :
    base.Fixes key variant field shared (own.map Segment.token) where
  declared := field?_of_discriminant? refines.discriminant
  keyed := refines.keyed
  base_tokens := by
    rw [tokens_format, refines.base_segments]
    simp [Function.comp_def, Segment.token]
  variant_tokens := by
    rw [tokens_format, refines.variant_segments]
    simp [Function.comp_def, Segment.token]
  behind := by
    -- A literal behind the key would be one of the variant's leading literals.
    have leading := refines.leading
    rw [leadingLiterals, refines.variant_segments, literalRun_append] at leading
    have none : literalRun (shared.map Segment.placeholder ++ own) = [] := by
      simpa [literalRun] using leading
    simpa [Function.comp_def, Segment.token] using head?_map_token none
  types := refines.types

namespace Fixes

/-- The segments of the base are its own literals, the field and the shared ones. -/
theorem base_segments (fixes : base.Fixes key variant field shared own) :
    base.segments = base.leadingLiterals.map Segment.literal ++
      .placeholder field.name :: shared.map Segment.placeholder := by
  rw [segments, fixes.base_tokens]
  simp [map_ofToken_leadingLiterals, Segment.ofToken_placeholder, Function.comp_def]

/-- The segments of the variant are the base's literals, the key, the shared fields and more. -/
theorem variant_segments (fixes : base.Fixes key variant field shared own) :
    variant.segments = base.leadingLiterals.map Segment.literal ++
      .literal key :: (shared.map Segment.placeholder ++ own.map Segment.ofToken) := by
  -- A key with braces would be no value.
  obtain ⟨value, read⟩ := fixes.keyed
  rw [segments, fixes.variant_tokens]
  simp [map_ofToken_leadingLiterals, Segment.ofToken_of_decode read, Segment.ofToken_placeholder,
    Function.comp_def]

/-- The key is the last of the variant's leading literals. -/
theorem leading (fixes : base.Fixes key variant field shared own) :
    variant.leadingLiterals = base.leadingLiterals ++ [key] := by
  -- The run of literals ends behind the key.
  have none := literalRun_map_ofToken fixes.behind
  rw [List.map_append, List.map_map] at none
  rw [leadingLiterals, fixes.variant_segments, literalRun_append]
  simpa [literalRun, Segment.ofToken_placeholder, Function.comp_def] using none

/-- The field is the one that all variants of the base fix, whichever comes first. -/
theorem discriminant (fixes : base.Fixes key variant field shared own)
    {first : String × Definition} (head : base.variants.head? = some first)
    (length : first.2.leadingLiterals.length = base.leadingLiterals.length + 1) :
    base.discriminant? = some field := by
  -- The first variant only tells a position, where the base has its one field of this place.
  have place : base.segments[base.leadingLiterals.length]? = some (.placeholder field.name) := by
    rw [fixes.base_segments]
    simp
  simp [discriminant?, head, length, place, fixes.declared]

/-- What is said of the tokens of a base and a variant holds of their segments. -/
theorem refines (fixes : base.Fixes key variant field shared own)
    (discriminant : base.discriminant? = some field) :
    base.Refines key variant field shared (own.map Segment.ofToken) :=
  ⟨discriminant, fixes.keyed, fixes.base_segments, fixes.leading, fixes.variant_segments,
    fixes.types⟩

end Fixes

/-- The variants of a base pass exactly when each has the entity of the base, is no base itself and
fixes a field of the base. -/
theorem forall_checkVariant_eq_ok :
    (∀ entry ∈ base.variants, base.checkVariant entry.1 entry.2 = .ok ()) ↔
      ∀ entry ∈ base.variants, entry.2.entity = base.entity ∧ entry.2.variants = [] ∧
        ∃ field shared own, base.Fixes entry.1 entry.2 field shared own := by
  simp only [checkVariant_eq_ok]
  constructor
  · intro each entry listed
    obtain ⟨entity, leaf, field, shared, own, refines⟩ := each entry listed
    exact ⟨entity, leaf, field, shared, _, refines.fixes⟩
  · intro each entry listed
    obtain ⟨entity, leaf, field, shared, own, fixes⟩ := each entry listed
    refine ⟨entity, leaf, field, shared, _, fixes.refines ?_⟩
    -- The check takes the place of the field from the first variant.
    obtain ⟨first, rest, shape⟩ := List.exists_cons_of_ne_nil (List.ne_nil_of_mem listed)
    obtain ⟨-, -, field', shared', own', fixes'⟩ := each first (by simp [shape])
    exact fixes.discriminant (by rw [shape]; rfl) (by simp [fixes'.leading])

end Definition

namespace Catalog

/-- What is asked of a catalog before its topics can be told apart. -/
structure WellFormed (catalog : Catalog) : Prop where
  /-- No two bases have the same entity key. -/
  keys : (catalog.map Prod.fst).Nodup
  /-- The format of a base starts with its entity key. -/
  first : ∀ entry ∈ catalog, entry.2.segments.head? = some (.literal entry.1)
  /-- Each base and each variant passes its own check. -/
  checked : ∀ definition ∈ catalog.definitions, definition.check = .ok ()
  /-- No two definitions have the same id. -/
  ids : (catalog.definitions.map Definition.id).Nodup
  /-- No two variants of a base have the same key. -/
  variantKeys : ∀ entry ∈ catalog, (entry.2.variants.map Prod.fst).Nodup
  /-- Each variant has the entity of its base, is no base itself and fixes a field of the base. -/
  fixed : ∀ entry ∈ catalog, ∀ variant ∈ entry.2.variants,
    variant.2.entity = entry.2.entity ∧ variant.2.variants = [] ∧
      ∃ field shared own, entry.2.Fixes variant.1 variant.2 field shared own

/-- The ids that a catalog claims are those of its definitions. -/
theorem allIds_eq (catalog : Catalog) : catalog.allIds = catalog.definitions.map Definition.id := by
  simp [allIds, definitions, Catalog.ids, List.map_flatMap, Function.comp_def]

/-- A catalog passes its check exactly when it is well formed. -/
theorem check_iff_wellFormed (catalog : Catalog) :
    catalog.check = .ok () ↔ catalog.WellFormed := by
  rw [check_eq_ok, allIds_eq]
  constructor
  · rintro ⟨each, keys, ids⟩
    refine { keys, ids, first := ?first, checked := ?checked, variantKeys := ?variantKeys,
             fixed := ?fixed }
    case first =>
      intro entry listed
      exact head?_literalRun.mp (each entry listed).1
    case checked =>
      intro definition member
      obtain ⟨entry, listed, inside⟩ := List.mem_flatMap.mp member
      obtain ⟨-, checked, variants, -⟩ := each entry listed
      rcases List.mem_cons.mp inside with rfl | below
      · exact checked
      · obtain ⟨variant, own, rfl⟩ := List.mem_map.mp below
        exact (variants variant own).1
    case variantKeys =>
      intro entry listed
      exact (each entry listed).2.2.2
    case fixed =>
      intro entry listed
      obtain ⟨-, -, variants, -⟩ := each entry listed
      exact Definition.forall_checkVariant_eq_ok.mp fun variant own => (variants variant own).2
  · intro formed
    refine ⟨fun entry listed => ?_, formed.keys, formed.ids⟩
    -- The definitions of the entry are definitions of the catalog.
    have checked : ∀ definition ∈ entry.2 :: entry.2.variants.map Prod.snd,
        definition.check = .ok () := fun definition inside =>
      formed.checked definition (List.mem_flatMap.mpr ⟨entry, listed, inside⟩)
    have refined := Definition.forall_checkVariant_eq_ok.mpr (formed.fixed entry listed)
    refine ⟨head?_literalRun.mpr (formed.first entry listed), checked _ (by simp),
      fun variant own => ⟨checked _ ?_, refined variant own⟩, formed.variantKeys entry listed⟩
    exact List.mem_cons_of_mem _ (List.mem_map_of_mem own)

end Catalog

end Topics
