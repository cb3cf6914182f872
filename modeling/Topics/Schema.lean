import Topics.Json.Basic
import Topics.Registry

/-! The catalog as a JSON document, in catalog order. -/

namespace Topics

/-- An object of entries that are put one after the other. -/
def Json.ofEntries (entries : List (String × Json)) : Json :=
  -- A name that is put again keeps its place and takes the new value.
  .object (OrderedMap.empty.insertAll entries).entries

/-- An object under a name, left out where it would be empty. -/
def Json.unlessEmpty (name : String) : List (String × Json) → List (String × Json)
  | [] => []
  | entries => [(name, ofEntries entries)]

/-- A field under its name, with its type and description. -/
def FieldSpec.schema (spec : FieldSpec) : String × Json :=
  (spec.name,
    .object [("type", .string spec.type.name), ("description", .string spec.description)])

namespace Definition

/-- The entries of a definition before its variants. -/
def ownSchema (definition : Definition) : List (String × Json) :=
  [("id", .string definition.id), ("entity", .string definition.entity),
    ("subject", .string definition.subject), ("format", .string definition.format),
    ("wildcard", .string definition.wildcard),
    ("fields", .ofEntries (definition.fields.map FieldSpec.schema))]

mutual

/-- A definition as an object; variants are left out where there are none. -/
def schema : Definition → Json
  | ⟨id, entity, subject, format, wildcard, fields, variants⟩ =>
    -- A definition's own entries come first, and its variants behind them.
    .object <| ownSchema ⟨id, entity, subject, format, wildcard, fields, variants⟩ ++
      Json.unlessEmpty "variants" (schemas variants)

/-- Definitions under their keys. -/
def schemas : List (String × Definition) → List (String × Json)
  | [] => []
  | (key, definition) :: rest => (key, schema definition) :: schemas rest

end

end Definition

/-- The document of all definitions under their entity keys. -/
def Registry.schema (registry : Registry) : Json :=
  .ofEntries <| registry.entityKeys.filterMap fun key =>
    (registry.base key).toOption.map fun base => (key, base.schema)

end Topics
