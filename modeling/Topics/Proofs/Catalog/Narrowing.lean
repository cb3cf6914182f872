import Topics.Proofs.Catalog.Refinement
import Topics.Proofs.Definition.RoundTrip

/-! A topic of a base is also a topic of a variant exactly when the variant fixes the value of the
topic's discriminant and has no further segments. -/

namespace Topics.Definition

variable {base variant : Definition} {key : String} {field : FieldSpec} {shared : List String}
  {own : List Segment} {values fields : FieldMap} {topic : String}

/-- The variant fixes the value that the field of the base has, and has as many segments. -/
def Narrows (base : Definition) (values : FieldMap) (field : FieldSpec)
    (variant : Definition) : Prop :=
  ∃ key value, base.discriminant? = some field ∧ values.get? field.name = some value ∧
    field.type.encode value = .ok key ∧ (key, variant) ∈ base.variants ∧
    variant.segmentCount = base.segmentCount

namespace Refines

/-- A topic of the base has the discriminant's token right behind the base's leading literals. -/
theorem tokens_of_build (refines : base.Refines key variant field shared own)
    (built : base.build values .topic = .ok topic) :
    ∃ token more, tokens topic = base.leadingLiterals ++ token :: more ∧
      base.Writes values .topic (.placeholder field.name) token ∧
      List.Forall₂ (base.Writes values .topic) (shared.map Segment.placeholder) more := by
  -- The tokens follow the format of the base.
  have written := (build_eq_ok.mp built).2
  rw [refines.base_segments, written_literals_append] at written
  obtain ⟨_, split, behind⟩ := written
  obtain ⟨token, more, first, others, rfl⟩ := List.forall₂_cons_left_iff.mp behind
  exact ⟨token, more, split, first, others⟩

/-- The base places its discriminant and then the shared fields. -/
theorem fieldNames_base (refines : base.Refines key variant field shared own)
    (formed : base.WellFormed) : base.fieldNames = field.name :: shared := by
  rw [← formed.placed, placeholders, refines.base_segments, List.filterMap_append,
    List.filterMap_map, List.filterMap_cons, List.filterMap_map]
  simp [Function.comp_def, Segment.name?]

/-- The variant places the shared fields. -/
theorem shared_subset (refines : base.Refines key variant field shared own)
    (formed : variant.WellFormed) {name : String} (listed : name ∈ shared) :
    name ∈ variant.fieldNames := by
  rw [← formed.placed, mem_placeholders, refines.variant_segments]
  simp [listed]

/-- What is written for a shared field of the base is written for the variant without the value of
the discriminant. -/
theorem written_shared (refines : base.Refines key variant field shared own)
    (formed : base.WellFormed) {name token : String} (listed : name ∈ shared)
    (written : base.Writes values .topic (.placeholder name) token) :
    variant.Writes (values.erase field.name) .topic (.placeholder name) token := by
  -- The base has no two fields of one name, so the shared one is not the discriminant.
  have distinct := formed.distinct
  rw [refines.fieldNames_base formed, List.nodup_cons] at distinct
  have other : name ≠ field.name := by
    rintro rfl
    exact distinct.1 listed
  obtain ⟨spec, value, declared, held, encoded⟩ := writes_topic.mp written
  -- The variant has a field of this name and of the same type.
  have type := refines.types name listed
  rw [declared, Option.map_some, eq_comm, Option.map_eq_some_iff] at type
  obtain ⟨spec', declared', same⟩ := type
  refine writes_topic.mpr ⟨spec', value, declared', ?_, same ▸ encoded⟩
  rw [OrderedMap.get?_erase, if_neg other, held]

/-- A variant with as many segments as the base has none behind the shared fields. -/
theorem own_eq_nil (refines : base.Refines key variant field shared own)
    (count : variant.segmentCount = base.segmentCount) : own = [] := by
  rw [← length_segments, ← length_segments, refines.variant_segments,
    refines.base_segments] at count
  apply List.length_eq_zero_iff.mp
  simp only [List.length_append, List.length_cons, List.length_map] at count
  omega

/-- The names of the base without the discriminant are names of the variant. -/
theorem declared_erase (refines : base.Refines key variant field shared own)
    (formed : base.WellFormed) (formed' : variant.WellFormed)
    (declared : ∀ name ∈ values.keys, name ∈ base.fieldNames) :
    ∀ name ∈ (values.erase field.name).keys, name ∈ variant.fieldNames := by
  intro name member
  obtain ⟨other, held⟩ := (values.mem_keys_erase field.name name).mp member
  have placed := declared name held
  rw [refines.fieldNames_base formed] at placed
  exact refines.shared_subset formed' ((List.mem_cons.mp placed).resolve_left other)

/-- Where the discriminant is written as the key and the variant has no segments of its own, the
variant builds the same topic from the other values. -/
theorem build_variant (refines : base.Refines key variant field shared own)
    (formed : base.WellFormed) (formed' : variant.WellFormed)
    (count : variant.segmentCount = base.segmentCount)
    (built : base.build values .topic = .ok topic)
    (chosen : base.Writes values .topic (.placeholder field.name) key) :
    variant.build (values.erase field.name) .topic = .ok topic := by
  have declared := refines.declared_erase formed formed' (build_eq_ok.mp built).1
  -- The key stands where the base has the discriminant's token.
  obtain ⟨token, more, split, first, others⟩ := refines.tokens_of_build built
  obtain rfl := chosen.unique first
  refine build_eq_ok.mpr ⟨declared, ?_⟩
  rw [refines.variant_segments, refines.own_eq_nil count, List.append_nil, split,
    written_literals_append]
  refine ⟨key :: more, rfl, .cons rfl ?_⟩
  -- Each shared field is written the same way on both sides.
  rw [List.forall₂_map_left_iff] at others ⊢
  have paired := (List.forall₂_and_left _ _).mpr ⟨fun _ listed => listed, others⟩
  exact paired.imp fun name token both => refines.written_shared formed both.1 both.2

/-- A variant that can read a topic of the base has as many segments, and its key is the token of
the discriminant. -/
theorem written_of_parse_variant (refines : base.Refines key variant field shared own)
    (formed : base.WellFormed) (formed' : variant.WellFormed)
    (built : base.build values .topic = .ok topic) (parsed : variant.parse topic = .ok fields) :
    base.Writes values .topic (.placeholder field.name) key ∧
      variant.segmentCount = base.segmentCount := by
  obtain ⟨token, more, split, first, -⟩ := refines.tokens_of_build built
  obtain ⟨back, again, -⟩ := formed.parse_of_build built
  constructor
  · -- The topic has both the key and the token right behind the shared literals.
    have leading := formed'.leading_of_parse parsed
    rw [refines.leading, split, List.prefix_append_right_inj, List.cons_prefix_cons] at leading
    exact leading.1 ▸ first
  · rw [← formed'.length_of_parse parsed, formed.length_of_parse again]

end Refines

/-- A variant that narrows values refines the base in the field that it narrows, and its key is how
their value of this field is written. -/
theorem Narrows.refines
    (passes : ∀ entry ∈ base.variants,
      entry.2.check = .ok () ∧ base.checkVariant entry.1 entry.2 = .ok ())
    (narrows : base.Narrows values field variant) :
    ∃ key value shared own, base.Refines key variant field shared own ∧ variant.WellFormed ∧
      values.get? field.name = some value ∧ field.type.encode value = .ok key ∧
      variant.segmentCount = base.segmentCount := by
  obtain ⟨key, value, discriminant, held, encoded, listed, count⟩ := narrows
  obtain ⟨checked, passed⟩ := passes _ listed
  obtain ⟨-, -, own_field, shared, own, refines⟩ := checkVariant_eq_ok.mp passed
  -- The field that the variant fixes is the only discriminant there is.
  obtain rfl : field = own_field := Option.some.inj (discriminant.symm.trans refines.discriminant)
  exact ⟨key, value, shared, own, refines, check_eq_ok.mp checked, held, encoded, count⟩

variable (formed : base.WellFormed)
  (passes : ∀ entry ∈ base.variants,
    entry.2.check = .ok () ∧ base.checkVariant entry.1 entry.2 = .ok ())

include formed passes

/-- A variant that narrows the values builds their topic without the discriminant. -/
theorem Narrows.build_variant (narrows : base.Narrows values field variant)
    (built : base.build values .topic = .ok topic) :
    variant.build (values.erase field.name) .topic = .ok topic := by
  obtain ⟨key, value, shared, own, refines, formed', held, encoded, count⟩ := narrows.refines passes
  have declared := field?_of_discriminant? refines.discriminant
  exact refines.build_variant formed formed' count built
    (writes_topic.mpr ⟨field, value, declared, held, encoded⟩)

/-- A variant that can read a topic of the base narrows the topic's values. -/
theorem narrows_of_parse (listed : (key, variant) ∈ base.variants)
    (built : base.build values .topic = .ok topic) (parsed : variant.parse topic = .ok fields) :
    ∃ field, base.Narrows values field variant := by
  obtain ⟨checked, passed⟩ := passes _ listed
  obtain ⟨-, -, field, shared, own, refines⟩ := checkVariant_eq_ok.mp passed
  obtain ⟨written, count⟩ :=
    refines.written_of_parse_variant formed (check_eq_ok.mp checked) built parsed
  obtain ⟨spec, value, declared, held, encoded⟩ := writes_topic.mp written
  rw [field?_of_discriminant? refines.discriminant, Option.some.injEq] at declared
  subst declared
  exact ⟨field, key, value, refines.discriminant, held, encoded, listed, count⟩

end Topics.Definition
