import Topics.Proofs.Catalog.Front

/-! The key of a variant is a token of its base's discriminant, but an identifier among the keys may
be spelled otherwise than topics spell it. -/

namespace Topics

namespace FieldType

variable {type : FieldType} {first second : String} {a b : Value}

/-- Tokens are read as the same value exactly when they have the same canonical spelling. -/
theorem decode_eq_decode_iff (read : type.decode first = .ok a)
    (read' : type.decode second = .ok b) :
    type.decode first = type.decode second ↔
      type.canonicalToken first = type.canonicalToken second := by
  have written := encode_of_decode read
  have written' := encode_of_decode read'
  rw [read, read', Except.ok.injEq]
  constructor
  · -- A value is written in one way only.
    rintro rfl
    exact Except.ok.inj (written.symm.trans written')
  · intro same
    exact encode_injective (same ▸ written) written'

/-- Different tokens have the same canonical spelling exactly when they are identifiers that differ
in case only. -/
theorem canonicalToken_eq_iff_of_ne (different : first ≠ second) :
    type.canonicalToken first = type.canonicalToken second ↔
      type.isIdentifier = true ∧ first.toLower = second.toLower := by
  cases identifier : type.isIdentifier <;> simp [canonicalToken, identifier, different]

end FieldType

namespace Definition

variable {base variant : Definition} {key topic : String} {field : FieldSpec} {value : Value}
  {shared : List String} {own : List Segment} {values : FieldMap}

/-- A topic of the base that has the value of a key has the key's canonical spelling right behind the
leading literals. -/
theorem Refines.canonicalKey_of_build (refines : base.Refines key variant field shared own)
    (read : field.type.decode key = .ok value) (held : values.get? field.name = some value)
    (built : base.build values .topic = .ok topic) :
    (tokens topic)[base.leadingLiterals.length]? = some (field.type.canonicalToken key) := by
  obtain ⟨token, more, split, written, -⟩ := refines.tokens_of_build built
  -- What stands there was written from the value of the key.
  obtain ⟨spec, value', declared, held', encoded⟩ := writes_topic.mp written
  rw [field?_of_discriminant? refines.discriminant, Option.some.injEq] at declared
  subst declared
  cases held.symm.trans held'
  cases encoded.symm.trans (FieldType.encode_of_decode read)
  simp [split]

end Definition

namespace Catalog

open Definition (family)

variable {catalog : Catalog} {entity : String} {base : Definition} {field : FieldSpec}

/-- The key of each variant in an accepted catalog is read as a value of the discriminant, which is
written as the key in its canonical spelling, by itself and in the topics of the base; only an
identifier with a digit in upper case is spelled otherwise. Two keys are read as one value exactly
when they are identifiers that differ in case only. -/
theorem variant_keys (checked : catalog.check = .ok ()) (member : (entity, base) ∈ catalog)
    (discriminant : base.discriminant? = some field) :
    (∀ entry ∈ base.variants, ∃ value, field.type.decode entry.1 = .ok value ∧
      field.type.encode value = .ok (field.type.canonicalToken entry.1) ∧
      (field.type.canonicalToken entry.1 = entry.1 ↔
        (field.type.isIdentifier = true → ∀ c ∈ entry.1.toList, Hex.isUpperDigit c = false)) ∧
      ∀ values, base.Fits values → values.get? field.name = some value →
        ∃ topic, base.build values .topic = .ok topic ∧
          (tokens topic)[base.leadingLiterals.length]? =
            some (field.type.canonicalToken entry.1)) ∧
    base.variants.Pairwise fun first second =>
      field.type.decode first.1 = field.type.decode second.1 ↔
        field.type.isIdentifier = true ∧ first.1.toLower = second.1.toLower := by
  have passes := passes_of_check checked member
  -- The variants all refine the base in the same field.
  have refined : ∀ entry ∈ base.variants,
      ∃ shared own, base.Refines entry.1 entry.2 field shared own := by
    intro entry listed
    obtain ⟨-, field', shared, own, refines⟩ := passes.refines listed
    cases discriminant.symm.trans refines.discriminant
    exact ⟨shared, own, refines⟩
  constructor
  · intro entry listed
    obtain ⟨shared, own, refines⟩ := refined entry listed
    obtain ⟨value, read⟩ := refines.keyed
    refine ⟨value, read, FieldType.encode_of_decode read,
      FieldType.canonicalToken_eq_self_iff read, fun values fits held => ?_⟩
    obtain ⟨topic, built⟩ := passes.base_wellFormed.build_topic fits
    exact ⟨topic, built, refines.canonicalKey_of_build read held built⟩
  · -- No two variants have the same key.
    have apart : base.variants.Pairwise fun first second => first.1 ≠ second.1 :=
      List.pairwise_map.mp passes.2.2.2
    refine apart.imp_of_mem fun {first second} listed listed' different => ?_
    obtain ⟨_, _, refines⟩ := refined first listed
    obtain ⟨_, _, refines'⟩ := refined second listed'
    obtain ⟨_, read⟩ := refines.keyed
    obtain ⟨_, read'⟩ := refines'.keyed
    rw [FieldType.decode_eq_decode_iff read read', FieldType.canonicalToken_eq_iff_of_ne different]

/-- The kinds of inputs are words, so each is written as itself and no two are read as one value. -/
theorem variant_keys_inputs :
    Catalog.builtin.check = .ok () ∧ ("inputs", Builtin.inputs) ∈ Catalog.builtin ∧
      ∃ field, Builtin.inputs.discriminant? = some field ∧
        (∀ entry ∈ Builtin.inputs.variants, ∃ value, field.type.decode entry.1 = .ok value ∧
          field.type.encode value = .ok entry.1) ∧
        Builtin.inputs.variants.Pairwise fun first second =>
          field.type.decode first.1 ≠ field.type.decode second.1 := by
  have member : ("inputs", Builtin.inputs) ∈ Catalog.builtin := by simp [Catalog.builtin]
  have discriminant : Builtin.inputs.discriminant? = some
      ⟨"input_type", .label .inputType, "The type of input (coin, contract, or message)"⟩ := by
    decide +kernel
  obtain ⟨each, apart⟩ := variant_keys check_builtin member discriminant
  refine ⟨check_builtin, member, _, discriminant, fun entry listed => ?_, apart.imp ?_⟩
  · obtain ⟨value, read, written, -, -⟩ := each entry listed
    exact ⟨value, read, written⟩
  · rintro first second same decoded
    cases (same.mp decoded).1

/-- Blobs under their hash, and one blob by itself under its hash in upper and in lower case. -/
def blobs : Catalog :=
  let hash : FieldSpec := ⟨"hash", .identifier .hexData, "The hash of the blob"⟩
  let index : FieldSpec := ⟨"index", .integer .u32, "The index of the blob"⟩
  let kept (id key : String) : String × Definition :=
    (key, family id "Blob" "BlobsKeptSubject" ["blobs", key] [index] [])
  [("blobs", family "blobs" "Blob" "BlobsSubject" ["blobs"] [hash, index]
    [kept "blobs_upper" "0xABABABABABABABABABABABABABABABABABABABABABABABABABABABABABABABAB",
      kept "blobs_lower" "0xabababababababababababababababababababababababababababababababab"])]

/-- A catalog is accepted though two keys of a base are read as the same value, which is not written
as the first of them. -/
theorem check_blobs :
    ∃ base field upper lower value, blobs.check = .ok () ∧ ("blobs", base) ∈ blobs ∧
      base.discriminant? = some field ∧ base.variants.map Prod.fst = [upper, lower] ∧
      field.type.decode upper = .ok value ∧ field.type.decode lower = .ok value ∧
      field.type.encode value = .ok lower ∧ upper ≠ lower := by
  have accepted : blobs.check = .ok () := by
    refine (check_eq_ok _).mpr ⟨?_, by decide +kernel, by decide +kernel⟩
    -- The one base has the hash in front, and both variants have what stands behind it.
    intro entry member
    obtain rfl := List.mem_singleton.mp member
    refine entryPasses_variants (by decide +kernel) (by decide +kernel) (by decide +kernel)
      (by decide +kernel) ?_
    intro variant listed
    simp only [List.mem_cons, List.not_mem_nil, or_false] at listed
    rcases listed with rfl | rfl <;>
      exact ⟨_, _, [⟨"index", .integer .u32, "The index of the blob"⟩], [], rfl, rfl⟩
  exact ⟨_, ⟨"hash", .identifier .hexData, "The hash of the blob"⟩, _, _,
    .ofIdentifier (.replicate 0xab), accepted, List.mem_cons_self, by decide +kernel, rfl,
    by decide +kernel, by decide +kernel, by decide +kernel, by decide +kernel⟩

end Catalog

end Topics
