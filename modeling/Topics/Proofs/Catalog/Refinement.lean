import Topics.Catalog.Check
import Topics.Proofs.Definition.Format

/-! A variant has the format of its base with a key in the place of one field, and perhaps more
behind it. -/

namespace Topics

/-- Rewriting its error changes no success. -/
theorem mapError_eq_ok {ε ε' α : Type} (result : Except ε α) (rewrite : ε → ε') (value : α) :
    result.mapError rewrite = .ok value ↔ result = .ok value := by
  cases result <;> simp [Except.mapError]

namespace Definition

variable {base variant : Definition} {key : String}

/-- A pair of segments passes exactly when both are placeholders of one name, whose fields have the
same type. -/
theorem checkShared_cons {wanted found : Segment} {pairs : List (Segment × Segment)} :
    base.checkShared variant ((wanted, found) :: pairs) = .ok () ↔
      ∃ name, wanted = .placeholder name ∧ found = .placeholder name ∧
        (base.field? name).map FieldSpec.type = (variant.field? name).map FieldSpec.type ∧
        base.checkShared variant pairs = .ok () := by
  -- A literal on either side is refused.
  cases wanted with
  | literal text => simp [checkShared]
  | placeholder name =>
    cases found with
    | literal text => simp [checkShared]
    | placeholder name' =>
      rw [checkShared, bind_eq_ok, bind_eq_ok, require_eq_ok, require_eq_ok]
      constructor
      · rintro ⟨rfl, type, rest⟩
        exact ⟨name, rfl, rfl, type, rest⟩
      · rintro ⟨_, same, same', type, rest⟩
        cases same
        cases same'
        exact ⟨rfl, type, rest⟩

/-- Segments pass in pairs exactly when both lists start with placeholders of the same names, whose
fields have the same types. -/
theorem checkShared_eq_ok {wanted found : List Segment} (within : wanted.length ≤ found.length) :
    base.checkShared variant (wanted.zip found) = .ok () ↔
      ∃ (names : List String) (own : List Segment),
        wanted = names.map Segment.placeholder ∧
        found = names.map Segment.placeholder ++ own ∧
        ∀ name ∈ names, (base.field? name).map FieldSpec.type =
          (variant.field? name).map FieldSpec.type := by
  induction wanted generalizing found with
  | nil =>
    -- Nothing is wanted any more, so all that is left is the variant's own.
    simp only [List.zip_nil_left, checkShared, true_iff]
    exact ⟨[], found, rfl, rfl, by simp⟩
  | cons segment rest ih =>
    obtain ⟨other, more, rfl⟩ :=
      List.exists_cons_of_length_pos (Nat.lt_of_lt_of_le (Nat.succ_pos _) within)
    have shorter : rest.length ≤ more.length := by simpa using within
    rw [List.zip_cons_cons, checkShared_cons, ih shorter]
    constructor
    · rintro ⟨name, rfl, rfl, type, names, own, rfl, rfl, types⟩
      refine ⟨name :: names, own, rfl, rfl, fun inner member => ?_⟩
      rcases List.mem_cons.mp member with rfl | later
      · exact type
      · exact types inner later
    · rintro ⟨names, own, shape, shape', types⟩
      cases names with
      | nil => cases shape
      | cons name names =>
        simp only [List.map_cons, List.cons_append, List.cons.injEq] at shape shape'
        exact ⟨name, shape.1, shape'.1, types name (by simp), names, own, shape.2, shape'.2,
          fun inner member => types inner (by simp [member])⟩

/-- The formats of a base and a variant side by side: the same literals, a field in the one and the
key in the other, the same fields behind it, and then more in the variant only. -/
structure Refines (base : Definition) (key : String) (variant : Definition) (field : FieldSpec)
    (shared : List String) (own : List Segment) : Prop where
  /-- The variants of the base fix the field. -/
  discriminant : base.discriminant? = some field
  /-- The key is a value of the field. -/
  keyed : ∃ value, field.type.decode key = .ok value
  /-- The field stands right behind the base's own literals. -/
  base_segments : base.segments = base.leadingLiterals.map Segment.literal ++
    .placeholder field.name :: shared.map Segment.placeholder
  /-- The key is the last of the variant's leading literals. -/
  leading : variant.leadingLiterals = base.leadingLiterals ++ [key]
  /-- The shared fields stand right behind the key. -/
  variant_segments : variant.segments = base.leadingLiterals.map Segment.literal ++
    .literal key :: (shared.map Segment.placeholder ++ own)
  /-- Shared fields have the same types. -/
  types : ∀ name ∈ shared, (base.field? name).map FieldSpec.type =
    (variant.field? name).map FieldSpec.type

/-- The field that variants fix is found under its name. -/
theorem field?_of_discriminant? {field : FieldSpec} (found : base.discriminant? = some field) :
    base.field? field.name = some field := by
  simp only [discriminant?, Option.bind_eq_bind, Option.bind_eq_some_iff] at found
  obtain ⟨⟨_, variant⟩, -, place⟩ := found
  -- The field is looked up under the name of a placeholder, which is thus its own.
  cases length : variant.leadingLiterals.length with
  | zero => simp [length] at place
  | succ position =>
    simp only [length, Option.bind_eq_some_iff] at place
    obtain ⟨segment, -, declared⟩ := place
    cases segment with
    | literal text => cases declared
    | placeholder name => exact name_of_field? declared ▸ declared

/-- Segments with a placeholder right behind their leading literals are these literals, the
placeholder and what follows it. -/
theorem segments_of_getElem? {name : String}
    (place : base.segments[base.leadingLiterals.length]? = some (.placeholder name)) :
    base.segments = base.leadingLiterals.map Segment.literal ++
      .placeholder name :: base.segments.drop (base.leadingLiterals.length + 1) := by
  -- The placeholder is the first of what follows the literals.
  obtain ⟨within, found⟩ := List.getElem?_eq_some_iff.mp place
  calc base.segments
      = base.leadingLiterals.map Segment.literal ++
          base.segments.drop base.leadingLiterals.length :=
        (literalRun_append_drop base.segments).symm
    _ = _ := by rw [List.drop_eq_getElem_cons within, found]

/-- The format of a variant passes beside that of a base exactly when it refines it in one of the
base's fields. -/
theorem checkRefinement_eq_ok :
    base.checkRefinement key variant = .ok () ↔
      ∃ field shared own, base.Refines key variant field shared own := by
  rw [checkRefinement, bind_eq_ok, require_eq_ok]
  cases discriminant : base.discriminant? with
  | none =>
    simp only [reduceCtorEq, and_false, false_iff]
    rintro ⟨field, shared, own, refines⟩
    -- Without such a field there is nothing to refine.
    cases discriminant.symm.trans refines.discriminant
  | some field =>
    cases decoded : field.type.decode key with
    | error cause =>
      simp only [bind_eq_ok, decoded, reduceCtorEq, and_false, false_iff]
      rintro ⟨field', shared, own, refines⟩
      obtain rfl : field = field' := Option.some.inj (discriminant.symm.trans refines.discriminant)
      -- A key that is no value of the field refines nothing.
      obtain ⟨value, read⟩ := refines.keyed
      cases decoded.symm.trans read
    | ok value =>
      simp only [bind_eq_ok, require_eq_ok, decoded]
      constructor
      · rintro ⟨leading, place, within, passed⟩
        -- What was compared are the shared fields, and the rest is the variant's own.
        obtain ⟨shared, own, wanted, found, types⟩ := (checkShared_eq_ok within).mp passed
        refine ⟨field, shared, own, discriminant, ⟨value, decoded⟩, ?_, leading, ?_, types⟩
        · rw [← wanted]
          exact segments_of_getElem? place
        · -- Behind the variant's leading literals stands what was compared.
          have split := literalRun_append_drop variant.segments
          rw [show literalRun variant.segments = _ from leading, found] at split
          rw [← split]
          simp
      · rintro ⟨field', shared, own, refines⟩
        obtain rfl : field = field' :=
          Option.some.inj (discriminant.symm.trans refines.discriminant)
        -- What is compared stands one segment behind the literals on both sides.
        have behind : base.segments.drop (base.leadingLiterals.length + 1) =
            shared.map Segment.placeholder := by
          rw [refines.base_segments, drop_literals]
        have behind' : variant.segments.drop (base.leadingLiterals ++ [key]).length =
            shared.map Segment.placeholder ++ own := by
          rw [refines.variant_segments, List.length_append, List.length_singleton, drop_literals]
        have within : (shared.map Segment.placeholder).length ≤
            (shared.map Segment.placeholder ++ own).length := by simp
        rw [behind, behind']
        refine ⟨refines.leading, ?_, within, ?_⟩
        · rw [refines.base_segments]
          simp
        · exact (checkShared_eq_ok within).mpr ⟨shared, own, rfl, rfl, refines.types⟩

/-- A variant passes exactly when it has the entity of the base, is no base itself and refines the
base in one of its fields. -/
theorem checkVariant_eq_ok :
    base.checkVariant key variant = .ok () ↔
      variant.entity = base.entity ∧ variant.variants = [] ∧
        ∃ field shared own, base.Refines key variant field shared own := by
  -- The fault of a refinement is reported as one of the variant.
  rw [checkVariant, bind_eq_ok, bind_eq_ok, require_eq_ok, require_eq_ok, mapError_eq_ok,
    checkRefinement_eq_ok, List.isEmpty_iff]

end Definition

namespace Catalog

variable {catalog : Catalog} {entity key : String} {base variant : Definition}

/-- Each base of a catalog that passes its check passes with its variants. -/
theorem passes_of_check (checked : catalog.check = .ok ()) (member : (entity, base) ∈ catalog) :
    EntryPasses entity base := by
  obtain ⟨each, -⟩ := (check_eq_ok catalog).mp checked
  exact each (entity, base) member

namespace EntryPasses

/-- The base of an entry that passes is well formed. -/
theorem base_wellFormed (passes : EntryPasses entity base) : base.WellFormed :=
  Definition.check_eq_ok.mp passes.2.1

/-- The variants of an entry that passes do so by themselves and beside the base. -/
theorem variants_pass (passes : EntryPasses entity base) :
    ∀ variant ∈ base.variants, variant.2.check = .ok () ∧
      base.checkVariant variant.1 variant.2 = .ok () :=
  passes.2.2.1

/-- The variants of an entry that passes are well formed. -/
theorem variant_wellFormed (passes : EntryPasses entity base)
    (listed : (key, variant) ∈ base.variants) : variant.WellFormed :=
  Definition.check_eq_ok.mp (passes.variants_pass _ listed).1

/-- The variants of an entry that passes stand under distinct keys. -/
theorem nodup_keys (passes : EntryPasses entity base) : (base.variants.map Prod.fst).Nodup :=
  passes.2.2.2

/-- The variants of an entry that passes have no variants of their own, and each refines the base in
the field that it fixes. -/
theorem refines (passes : EntryPasses entity base) (listed : (key, variant) ∈ base.variants) :
    variant.variants = [] ∧ ∃ field shared own, base.Refines key variant field shared own := by
  obtain ⟨-, checked⟩ := passes.variants_pass _ listed
  exact (Definition.checkVariant_eq_ok.mp checked).2

/-- A variant of an entry that passes is no base of anything. -/
theorem childless (passes : EntryPasses entity base) (listed : (key, variant) ∈ base.variants)
    (entry : String × Definition) : entry ∉ variant.variants := by
  rw [(passes.refines listed).1]
  exact List.not_mem_nil

end EntryPasses

end Catalog

end Topics
