import Topics.Registry

/-! Kinds name the families of the built-in catalog. -/

namespace Topics

/-- What topics can be about. -/
inductive Family where
  | blocks
  | transactions
  | inputs
  | outputs
  | receipts
  | utxos
  deriving DecidableEq, Repr

namespace Family

/-- All families, in the order in which they are published. -/
def all : List Family := [blocks, transactions, inputs, outputs, receipts, utxos]

/-- The entity key of a family. -/
def key : Family → String
  | blocks => "blocks"
  | transactions => "transactions"
  | inputs => "inputs"
  | outputs => "outputs"
  | receipts => "receipts"
  | utxos => "utxos"

/-- The words that tell the variants of a family apart, where it has variants. -/
def vocabulary? : Family → Option Vocabulary
  | inputs => some .inputType
  | outputs => some .outputType
  | receipts => some .receiptType
  | _ => none

/-- The family under an entity key. -/
def ofKey? (text : String) : Option Family := all.find? (fun family => family.key == text)

/-- The labels of a family's variants. -/
def labels (family : Family) : List Label := (family.vocabulary?.map Vocabulary.labels).getD []

end Family

/-- A family, or one variant of it. -/
structure Kind where
  /-- What the topics are about. -/
  family : Family
  /-- The label of the variant, or none for the base. -/
  label : Option Label
  /-- The label is one of the family's. -/
  fits : ∀ l, label = some l → family.vocabulary? = some l.vocabulary

namespace Kind

/-- The base of a family. -/
def ofFamily (family : Family) : Kind := ⟨family, none, by simp⟩

/-- The variant of a family under a word, where the family has one. -/
def variant? (family : Family) (word : String) : Option Kind :=
  -- Only families with a vocabulary have variants, and only for its words.
  match known : family.vocabulary? with
  | none => none
  | some vocabulary =>
    if listed : word ∈ vocabulary.words then
      some ⟨family, some ⟨vocabulary, word, listed⟩, by rintro l ⟨⟩; exact known⟩
    else none

/-- The entity key. -/
def entityKey (kind : Kind) : String := kind.family.key

/-- The key of the variant. -/
def variantKey? (kind : Kind) : Option String := kind.label.map Label.word

/-- The id of the definition that the kind names. -/
def id (kind : Kind) : String :=
  match kind.variantKey? with
  | none => kind.entityKey
  | some word => kind.entityKey ++ "_" ++ word

/-- The kind of the family's base. -/
def base (kind : Kind) : Kind := ofFamily kind.family

/-- Whether the kind names a variant. -/
def isVariant (kind : Kind) : Bool := kind.label.isSome

/-- The kind with an id: an entity key, and behind the first underscore the key of a variant. -/
def ofId? (id : String) : Option Kind :=
  -- Further underscores belong to the variant's word.
  match id.toList.span (· ≠ '_') with
  | (_, []) => (Family.ofKey? id).map ofFamily
  | (entity, _ :: word) => do
    let family ← Family.ofKey? (String.ofList entity)
    variant? family (String.ofList word)

/-- The kind with an id, or an error that names it. -/
def ofId (id : String) : Except TopicError Kind :=
  match ofId? id with
  | some kind => .ok kind
  | none => .error (.unknownSubject id)

/-- All kinds, each base before its variants. -/
def all : List Kind :=
  -- Each label of a family gives a variant, because its word is one of the family's.
  Family.all.flatMap fun family =>
    ofFamily family :: family.labels.filterMap fun label => variant? family label.word

/-- The definition that a kind names. -/
def definition (kind : Kind) (registry : Registry) : Except TopicError Definition :=
  registry.select kind.entityKey kind.variantKey?

end Kind

/-- The kind of the family that a topic belongs to. -/
def Resolution.kind? (resolution : Resolution) : Option Kind :=
  Kind.ofId? resolution.definition.id

end Topics
