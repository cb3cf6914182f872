import Topics.Field.Error

/-! Why a catalog of definitions is refused. -/

namespace Topics

/-- Why a variant is no refinement of its base. -/
inductive RefinementFault where
  /-- The leading literals are not the base's, followed by the key. -/
  | leadingLiterals (expected : String)
  /-- The base has no field for the variants to fix. -/
  | noDiscriminant
  /-- The base's field that variants fix stands elsewhere than behind the leading literals. -/
  | discriminantPlace (field : String)
  /-- The key is no value of the field that it fixes. -/
  | keyNotDecodable (key type : String) (cause : FieldError)
  /-- The variant has fewer fields than the base leaves open. -/
  | shorter
  /-- A literal stands behind the field that variants fix. -/
  | lateLiteral
  /-- The variant has another field where the base has `expected`. -/
  | fieldName (expected got : String)
  /-- A field of the base has another type in the variant. -/
  | fieldType (field : String)
  deriving DecidableEq, Repr

/-- The text of a refinement's fault. -/
def RefinementFault.message : RefinementFault → String
  | leadingLiterals expected => s!"literal prefix should be '{expected}'"
  | noDiscriminant => "parent has no discriminant field"
  | discriminantPlace field => s!"discriminant '{field}' must directly follow the literal prefix"
  | keyNotDecodable key type cause => s!"'{key}' is not a {type} literal: {cause.message}"
  | shorter => "variant is shorter than its parent"
  | lateLiteral => "literal tokens after the discriminant"
  | fieldName expected got => s!"expected field '{expected}', found '{got}'"
  | fieldType field => s!"field '{field}' changes type"

/-- What is wrong with one definition or its place in the catalog. -/
inductive DefinitionFault where
  /-- The format does not start with the key of its entity. -/
  | keyNotFirst (key : String)
  /-- Two variants have the same key. -/
  | duplicateVariant (key : String)
  /-- A literal is empty, a wildcard or has a brace. -/
  | malformedLiteral (token : String)
  /-- A variant has variants of its own. -/
  | nestedVariants
  deriving DecidableEq, Repr

/-- The text of a definition's fault. -/
def DefinitionFault.message : DefinitionFault → String
  | keyNotFirst key => s!"format must start with the entity key '{key}'"
  | duplicateVariant key => s!"duplicate variant key '{key}'"
  | malformedLiteral token => s!"malformed literal token '{token}'"
  | nestedVariants => "variants cannot be nested"

/-- A reason for refusing a catalog. -/
inductive CatalogError where
  /-- Two definitions have the same id. -/
  | duplicateId (id : String)
  /-- Two bases have the same entity key. -/
  | duplicateEntity (key : String)
  /-- A format without any character. -/
  | emptyFormat (id : String)
  /-- A placeholder whose field is not declared. -/
  | undeclaredPlaceholder (id name : String)
  /-- A field that the format does not place exactly once. -/
  | fieldNotPlacedOnce (id name : String) (count : Nat)
  /-- Fields declared in another order than the format places them. -/
  | fieldOrder (id : String)
  /-- A wildcard that does not follow from the format. -/
  | wildcardMismatch (id expected got : String)
  /-- A variant that does not refine its base. -/
  | notRefinement (id parent : String) (fault : RefinementFault)
  /-- A variant with another entity than its base. -/
  | entityMismatch (id expected got : String)
  /-- Any other fault of a definition. -/
  | invalid (id : String) (fault : DefinitionFault)
  deriving DecidableEq, Repr

/-- The text that reports a refused catalog. -/
def CatalogError.message : CatalogError → String
  | duplicateId id => s!"Duplicate subject id '{id}'"
  | duplicateEntity key => s!"Duplicate entity key '{key}'"
  | emptyFormat id => s!"Subject '{id}' has an empty format"
  | undeclaredPlaceholder id name => s!"Subject '{id}': placeholder '{name}' has no declared field"
  | fieldNotPlacedOnce id name count =>
    s!"Subject '{id}': field '{name}' appears {count} times in the format"
  | fieldOrder id => s!"Subject '{id}': field order does not follow the format"
  | wildcardMismatch id expected got =>
    s!"Subject '{id}': wildcard '{got}' should be '{expected}'"
  | notRefinement id parent fault =>
    s!"Variant '{id}' is not a refinement of '{parent}': {fault.message}"
  | entityMismatch id expected got =>
    s!"Variant '{id}' has entity '{got}', parent has '{expected}'"
  | invalid id fault => s!"Validation failed for '{id}': {fault.message}"

end Topics
