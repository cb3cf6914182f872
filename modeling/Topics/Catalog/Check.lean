import Topics.Catalog.Error
import Topics.Definition.Basic
import Topics.Field.Codec
import Topics.Require

/-! A catalog is checked before it is used, and the first fault in order decides. -/

namespace Topics

/-- Whether a literal can be part of a format. -/
def isLiteralToken (token : String) : Bool :=
  token != "" && token != singleWildcard && token != tailWildcard &&
    !token.toList.any fun c => c == '{' || c == '}'

namespace Definition

/-- A literal is well formed, and a placeholder has a declared field. -/
def checkSegment (definition : Definition) : Segment → Except CatalogError Unit
  | .literal token =>
    require (isLiteralToken token) (.invalid definition.id (.malformedLiteral token))
  | .placeholder name =>
    require (definition.field? name).isSome (.undeclaredPlaceholder definition.id name)

/-- The format places a field exactly once. -/
def checkPlaced (definition : Definition) (name : String) : Except CatalogError Unit :=
  let count := definition.placeholders.count name
  require (count = 1) (.fieldNotPlacedOnce definition.id name count)

/-- The format is well formed, places each field once and in order, and gives the wildcard. -/
def check (definition : Definition) : Except CatalogError Unit := do
  -- The order of the conditions decides which of several faults is reported.
  require (definition.format ≠ "") (.emptyFormat definition.id)
  definition.segments.forM definition.checkSegment
  definition.fieldNames.forM definition.checkPlaced
  require (definition.placeholders = definition.fieldNames) (.fieldOrder definition.id)
  require (definition.wildcard = definition.derivedWildcard)
    (.wildcardMismatch definition.id definition.derivedWildcard definition.wildcard)

/-- Behind the field that variants fix, base and variant have the same fields of the same types. -/
def checkShared (parent variant : Definition) :
    List (Segment × Segment) → Except RefinementFault Unit
  | [] => .ok ()
  | (.placeholder wanted, .placeholder found) :: rest => do
    -- Names are compared first, so that types are those of one field.
    require (wanted = found) (.fieldName wanted found)
    require
      ((parent.field? wanted).map FieldSpec.type = (variant.field? found).map FieldSpec.type)
      (.fieldType wanted)
    parent.checkShared variant rest
  | _ :: _ => .error .lateLiteral

/-- The variant has the base's format with the key in the place of the field that it fixes. -/
def checkRefinement (parent : Definition) (key : String) (variant : Definition) :
    Except RefinementFault Unit := do
  -- The key stands as a literal right behind the base's own literals.
  let lead := parent.leadingLiterals ++ [key]
  require (variant.leadingLiterals = lead) (.leadingLiterals (joinTokens lead))
  match parent.discriminant? with
  | none => .error .noDiscriminant
  | some field =>
    require (parent.segments[parent.leadingLiterals.length]? = some (.placeholder field.name))
      (.discriminantPlace field.name)
    -- The key has to be a value of the field whose place it takes.
    match field.type.decode key with
    | .error cause => .error (.keyNotDecodable key field.type.name cause)
    | .ok _ =>
      -- What is left of the base's format comes first in what is left of the variant's.
      let wanted := parent.segments.drop (parent.leadingLiterals.length + 1)
      let found := variant.segments.drop lead.length
      require (wanted.length ≤ found.length) .shorter
      parent.checkShared variant (wanted.zip found)

/-- A variant has its base's entity, no variants of its own, and refines the base. -/
def checkVariant (parent : Definition) (key : String) (variant : Definition) :
    Except CatalogError Unit := do
  require (variant.entity = parent.entity)
    (.entityMismatch variant.id parent.entity variant.entity)
  require (variant.variants.isEmpty) (.invalid variant.id .nestedVariants)
  (parent.checkRefinement key variant).mapError (.notRefinement variant.id parent.id)

end Definition

namespace Catalog

/-- Adds an id to those taken; an id can be taken once. -/
def claimId (taken : List String) (id : String) : Except CatalogError (List String) :=
  if id ∈ taken then .error (.duplicateId id) else .ok (id :: taken)

/-- Checks the variants of a base one after the other, with the keys and ids taken before. -/
def checkVariants (parent : Definition) : (keys ids : List String) →
    List (String × Definition) → Except CatalogError (List String)
  | _, ids, [] => .ok ids
  | keys, ids, (key, variant) :: rest => do
    -- Keys are unique within the base, and ids within the whole catalog.
    require (key ∉ keys) (.invalid parent.id (.duplicateVariant key))
    variant.check
    parent.checkVariant key variant
    let ids ← claimId ids variant.id
    checkVariants parent (key :: keys) ids rest

/-- Checks bases one after the other, with the keys and ids taken before. -/
def checkBases : (keys ids : List String) → Catalog → Except CatalogError Unit
  | _, _, [] => .ok ()
  | keys, ids, (key, base) :: rest => do
    -- A base is checked whole, with its variants, before the next one is looked at.
    require (key ∉ keys) (.duplicateEntity key)
    require (base.leadingLiterals.head? = some key) (.invalid base.id (.keyNotFirst key))
    base.check
    let ids ← claimId ids base.id
    let ids ← checkVariants base [] ids base.variants
    checkBases (key :: keys) ids rest

/-- Every definition is well formed, ids and keys are unique, and variants refine their bases. -/
def check (catalog : Catalog) : Except CatalogError Unit := checkBases [] [] catalog

/-- An id is claimed exactly when it is not taken. -/
theorem claimId_eq_ok (taken : List String) (id : String) (result : List String) :
    claimId taken id = .ok result ↔ id ∉ taken ∧ result = id :: taken := by
  by_cases held : id ∈ taken <;> simp [claimId, held, eq_comm]

/-- The ids of listed definitions, in order. -/
def ids (entries : List (String × Definition)) : List String := entries.map fun entry => entry.2.id

/-- The ids that a catalog claims: each base's before those of its variants. -/
def allIds (catalog : Catalog) : List String :=
  catalog.flatMap fun entry => entry.2.id :: ids entry.2.variants

/-- Variants pass exactly when each passes by itself, with a key and an id that no other has. -/
theorem checkVariants_eq_ok (parent : Definition) (variants : List (String × Definition)) :
    ∀ keys taken result, checkVariants parent keys taken variants = .ok result ↔
      (∀ entry ∈ variants, entry.2.check = .ok () ∧
        parent.checkVariant entry.1 entry.2 = .ok ()) ∧
      (variants.map Prod.fst).Nodup ∧ (∀ key ∈ variants.map Prod.fst, key ∉ keys) ∧
      (ids variants).Nodup ∧ (∀ id ∈ ids variants, id ∉ taken) ∧
      result = (ids variants).reverse ++ taken := by
  induction variants with
  | nil => simp [checkVariants, ids, eq_comm]
  | cons entry rest ih =>
    intro keys taken result
    obtain ⟨key, variant⟩ := entry
    rw [checkVariants, bind_eq_ok, bind_eq_ok, bind_eq_ok, bind_eq_ok_iff, require_eq_ok]
    simp only [claimId_eq_ok, ih]
    -- Both sides say the same of the first variant and of the others.
    simp only [ids, List.map_cons, List.mem_cons, List.nodup_cons, forall_eq_or_imp,
      List.reverse_cons, List.append_assoc, List.singleton_append]
    constructor
    · rintro ⟨newKey, checked, refines, _, ⟨newId, rfl⟩, each, keysDistinct, keysNew,
        idsDistinct, idsNew, rfl⟩
      refine ⟨⟨⟨checked, refines⟩, each⟩, ⟨fun member => ?_, keysDistinct⟩,
        ⟨newKey, fun other member => ?_⟩, ⟨fun member => ?_, idsDistinct⟩,
        ⟨newId, fun other member => ?_⟩, rfl⟩
      · exact (not_or.mp (keysNew key member)).1 rfl
      · exact (not_or.mp (keysNew other member)).2
      · exact List.ne_of_not_mem_cons (idsNew variant.id member) rfl
      · exact List.not_mem_of_not_mem_cons (idsNew other member)
    · rintro ⟨⟨⟨checked, refines⟩, each⟩, ⟨keyOnce, keysDistinct⟩, ⟨newKey, keysNew⟩,
        ⟨idOnce, idsDistinct⟩, ⟨newId, idsNew⟩, rfl⟩
      refine ⟨newKey, checked, refines, _, ⟨newId, rfl⟩, each, keysDistinct,
        fun other member => ?_, idsDistinct, fun other member => ?_, rfl⟩
      · exact not_or.mpr ⟨fun same => keyOnce (same ▸ member), keysNew other member⟩
      · exact List.not_mem_cons_of_ne_of_not_mem (fun same => idOnce (same ▸ member))
          (idsNew other member)

/-- What is asked of one base and its variants, apart from ids and entity keys. -/
def EntryPasses (key : String) (base : Definition) : Prop :=
  base.leadingLiterals.head? = some key ∧ base.check = .ok () ∧
    (∀ entry ∈ base.variants, entry.2.check = .ok () ∧
      base.checkVariant entry.1 entry.2 = .ok ()) ∧
    (base.variants.map Prod.fst).Nodup

/-- Bases pass exactly when each passes by itself, with keys and ids that no other has. -/
theorem checkBases_eq_ok (catalog : Catalog) :
    ∀ keys taken, checkBases keys taken catalog = .ok () ↔
      (∀ entry ∈ catalog, EntryPasses entry.1 entry.2) ∧
      (catalog.map Prod.fst).Nodup ∧ (∀ key ∈ catalog.map Prod.fst, key ∉ keys) ∧
      (allIds catalog).Nodup ∧ ∀ id ∈ allIds catalog, id ∉ taken := by
  induction catalog with
  | nil => simp [checkBases, allIds]
  | cons entry rest ih =>
    intro keys taken
    obtain ⟨key, base⟩ := entry
    rw [checkBases, bind_eq_ok, bind_eq_ok, bind_eq_ok, bind_eq_ok_iff, require_eq_ok,
      require_eq_ok]
    simp only [bind_eq_ok_iff, claimId_eq_ok, checkVariants_eq_ok, ih, EntryPasses, allIds,
      List.map_cons, List.mem_cons, List.nodup_cons, forall_eq_or_imp, List.flatMap_cons,
      List.nodup_append, List.mem_append, List.cons_append]
    constructor
    · rintro ⟨newKey, first, checked, _, ⟨newId, rfl⟩, _, ⟨each, ownKeys, _, ownIds, ownNew, rfl⟩,
        others, keysDistinct, keysNew, idsDistinct, idsNew⟩
      -- Later ids differ from the base's, its variants' and those taken before.
      have apart : ∀ id ∈ rest.flatMap (fun entry => entry.2.id :: ids entry.2.variants),
          id ∉ ids base.variants ∧ id ≠ base.id ∧ id ∉ taken := by
        intro id member
        have new := idsNew id member
        simp only [List.mem_append, List.mem_reverse, List.mem_cons, not_or] at new
        exact ⟨new.1, new.2.1, new.2.2⟩
      refine ⟨⟨⟨first, checked, each, ownKeys⟩, others⟩,
        ⟨fun member => ?_, keysDistinct⟩, ⟨newKey, fun other member => ?_⟩,
        ⟨?_, ownIds, idsDistinct, fun a own b later same => ?_⟩, ?_⟩
      · exact (not_or.mp (keysNew key member)).1 rfl
      · exact (not_or.mp (keysNew other member)).2
      · rintro (own | later)
        · exact List.ne_of_not_mem_cons (ownNew base.id own) rfl
        · exact (apart base.id later).2.1 rfl
      · exact (apart b later).1 (same ▸ own)
      · refine ⟨newId, fun id member => ?_⟩
        rcases member with own | later
        · exact List.not_mem_of_not_mem_cons (ownNew id own)
        · exact (apart id later).2.2
    · rintro ⟨⟨⟨first, checked, each, ownKeys⟩, others⟩, ⟨keyOnce, keysDistinct⟩,
        ⟨newKey, keysNew⟩, ⟨idOnce, ownIds, idsDistinct, disjoint⟩, newId, idsNew⟩
      refine ⟨newKey, first, checked, _, ⟨newId, rfl⟩, _,
        ⟨each, ownKeys, by simp, ownIds, fun id own => ?_, rfl⟩, others, keysDistinct,
        fun other member => ?_, idsDistinct, fun id later => ?_⟩
      · exact List.not_mem_cons_of_ne_of_not_mem (fun same => idOnce (Or.inl (same ▸ own)))
          (idsNew id (Or.inl own))
      · exact not_or.mpr ⟨fun same => keyOnce (same ▸ member), keysNew other member⟩
      · simp only [List.mem_append, List.mem_reverse, List.mem_cons, not_or]
        exact ⟨fun own => disjoint id own id later rfl,
          fun same => idOnce (Or.inr (same ▸ later)), idsNew id (Or.inr later)⟩

/-- A catalog passes exactly when each base passes with its variants, and no entity key and no
id is used twice. -/
theorem check_eq_ok (catalog : Catalog) :
    check catalog = .ok () ↔
      (∀ entry ∈ catalog, EntryPasses entry.1 entry.2) ∧ (catalog.map Prod.fst).Nodup ∧
        (allIds catalog).Nodup := by
  rw [check, checkBases_eq_ok]
  simp

end Catalog

end Topics
