import Topics.Catalog.Check
import Topics.Definition.Parse

/-! A registry answers questions about a checked catalog. -/

namespace Topics

/-- A catalog that has passed its check. -/
structure Registry where
  /-- The bases under their entity keys. -/
  catalog : Catalog
  /-- The catalog has no fault. -/
  checked : catalog.check = .ok ()

/-- The tables in which definitions are looked up. -/
structure Tables where
  /-- The bases under their entity keys. -/
  entities : OrderedMap Definition
  /-- All definitions under their ids. -/
  byId : OrderedMap Definition

namespace Tables

/-- The tables without entries. -/
def empty : Tables := ⟨.empty, .empty⟩

/-- Enters a base under its key, and under their ids the base and then its variants. -/
def enter (tables : Tables) (key : String) (base : Definition) : Tables where
  -- A key or an id that is there already would have its definition overwritten.
  entities := tables.entities.insert key base
  byId := (tables.byId.insert base.id base).insertAll
    (base.variants.map fun (_, variant) => (variant.id, variant))

end Tables

/-- The tables with the entries of a catalog, entered in order. -/
def Catalog.tables (catalog : Catalog) : Tables :=
  catalog.foldl (fun tables (key, base) => tables.enter key base) .empty

/-- A definition with the values of one of its topics. -/
structure Resolution where
  /-- The family that the topic belongs to. -/
  definition : Definition
  /-- The values in the topic. -/
  fields : FieldMap

/-- All definitions of a catalog, each base before its variants. -/
def Catalog.definitions (catalog : Catalog) : List Definition :=
  catalog.flatMap fun (_, base) => base :: base.variants.map Prod.snd

/-- The definitions to which a topic may belong, variants before their base. -/
def Catalog.candidates (catalog : Catalog) : List Definition :=
  catalog.flatMap fun (_, base) => base.variants.map Prod.snd ++ [base]

/-- The first definition under which a topic can be read.

A mismatch says nothing about the topic; `fault` is the first other error met so far. -/
def resolveAmong (topic : String) : (fault : Option TopicError) → List Definition →
    Except TopicError Resolution
  | fault, [] => .error (fault.getD (.unknownSubject topic))
  | fault, definition :: rest =>
    -- A later definition may still succeed, so an error is only remembered.
    match definition.parse topic with
    | .ok fields => .ok ⟨definition, fields⟩
    | .error error =>
      resolveAmong topic (if error.isMismatch then fault else fault <|> some error) rest

namespace Registry

/-- The registry of a catalog, if the catalog passes its check. -/
def ofCatalog (catalog : Catalog) : Except CatalogError Registry :=
  -- The passed check is what the registry keeps as its invariant.
  match checked : catalog.check with
  | .ok () => .ok ⟨catalog, checked⟩
  | .error error => .error error

/-- The tables of the registry's catalog. -/
def tables (registry : Registry) : Tables := registry.catalog.tables

/-- All definitions, each base before its variants. -/
def definitions (registry : Registry) : List Definition :=
  registry.tables.byId.entries.map Prod.snd

/-- The number of definitions. -/
def size (registry : Registry) : Nat := registry.tables.byId.entries.length

/-- The entity keys, in order. -/
def entityKeys (registry : Registry) : List String := registry.tables.entities.keys

/-- The base under an entity key. -/
def base (registry : Registry) (entity : String) : Except TopicError Definition :=
  match registry.tables.entities.get? entity with
  | some definition => .ok definition
  | none => .error (.unknownEntity entity)

/-- The variant under a key of an entity's base. -/
def variant (registry : Registry) (entity key : String) : Except TopicError Definition :=
  -- An unknown entity is reported before its variant is looked for.
  match registry.base entity with
  | .error error => .error error
  | .ok base =>
    match base.variant? key with
    | some definition => .ok definition
    | none => .error (.unknownVariant entity key)

/-- The base under an entity key, or its variant where a key is given. -/
def select (registry : Registry) (entity : String) : Option String → Except TopicError Definition
  | some key => registry.variant entity key
  | none => registry.base entity

/-- The definition with an id. -/
def definition (registry : Registry) (id : String) : Except TopicError Definition :=
  match registry.tables.byId.get? id with
  | some definition => .ok definition
  | none => .error (.unknownSubject id)

/-- The definition that a topic belongs to, with the values in the topic. -/
def resolve (registry : Registry) (topic : String) : Except TopicError Resolution :=
  resolveAmong topic none (Catalog.candidates registry.tables.entities.entries)

end Registry

end Topics
