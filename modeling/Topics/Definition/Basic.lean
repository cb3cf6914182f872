import Topics.Field.Type
import Topics.Field.Value
import Topics.OrderedMap
import Topics.Pattern

/-! A definition describes a family of topics by a format with typed fields. -/

namespace Topics

/-- A field of a definition. -/
structure FieldSpec where
  /-- The name that placeholders refer to. -/
  name : String
  /-- The type of its values. -/
  type : FieldType
  /-- What the field tells, for readers. -/
  description : String
  deriving DecidableEq, Repr

/-- What stands between two separators of a format. -/
inductive Segment where
  /-- Fixed text. -/
  | literal (text : String)
  /-- The place of a field's value. -/
  | placeholder (name : String)
  deriving DecidableEq, Repr

namespace Segment

/-- A token in braces is a placeholder, and any other a literal. -/
def ofToken (token : String) : Segment :=
  -- Both braces are needed, and one brace cannot be both of them.
  match token.toList with
  | '{' :: inner =>
    if inner.getLast? = some '}' then placeholder (String.ofList inner.dropLast) else literal token
  | _ => literal token

/-- The text of a literal or the name of a placeholder. -/
def text : Segment → String
  | literal text => text
  | placeholder name => name

/-- Whether the segment is fixed text. -/
def isLiteral : Segment → Bool
  | literal _ => true
  | placeholder _ => false

/-- The name of a placeholder. -/
def name? : Segment → Option String
  | literal _ => none
  | placeholder name => some name

end Segment

/-- The literals before the first placeholder. -/
def literalRun : List Segment → List String
  | .literal text :: rest => text :: literalRun rest
  | _ => []

/-- A family of topics; a base may have variants, which fix one of its fields. -/
structure Definition where
  /-- The name by which a payload asks for the family. -/
  id : String
  /-- What the topics are about, shared by a base and its variants. -/
  entity : String
  /-- The name of the subject type. -/
  subject : String
  /-- The tokens of a topic, with a field's name in braces where its value stands. -/
  format : String
  /-- The pattern that selects the whole family. -/
  wildcard : String
  /-- The fields, in the order in which the format places them. -/
  fields : List FieldSpec
  /-- Narrower families under the word that each fixes. -/
  variants : List (String × Definition)
  deriving Repr

/-- Bases under their entity keys. -/
abbrev Catalog := List (String × Definition)

/-- Values under field names. -/
abbrev FieldMap := OrderedMap Value

namespace Definition

/-- The segments of the format. -/
def segments (definition : Definition) : List Segment :=
  (tokens definition.format).map Segment.ofToken

/-- The number of tokens that each topic of the family has. -/
def segmentCount (definition : Definition) : Nat := (tokens definition.format).length

/-- The field declared under a name. -/
def field? (definition : Definition) (name : String) : Option FieldSpec :=
  definition.fields.find? (fun spec => spec.name == name)

/-- The names of the declared fields, in order. -/
def fieldNames (definition : Definition) : List String := definition.fields.map FieldSpec.name

/-- The names that the format places, in order. -/
def placeholders (definition : Definition) : List String :=
  definition.segments.filterMap Segment.name?

/-- The variant listed under a key. -/
def variant? (definition : Definition) (key : String) : Option Definition :=
  lookupEntry key definition.variants

/-- Whether there are narrower families. -/
def hasVariants (definition : Definition) : Bool := !definition.variants.isEmpty

/-- The literals at the start of the format. -/
def leadingLiterals (definition : Definition) : List String := literalRun definition.segments

/-- The pattern that selects every topic with the leading literals and something behind them. -/
def derivedWildcard (definition : Definition) : String :=
  joinTokens (definition.leadingLiterals ++ [tailWildcard])

/-- The field of a base that its variants fix: the one where the first variant has its last
leading literal. -/
def discriminant? (definition : Definition) : Option FieldSpec := do
  -- All variants of a checked base fix the same field, so the first one tells which.
  let (_, variant) ← definition.variants.head?
  match variant.leadingLiterals.length with
  | 0 => none
  | position + 1 =>
    match ← definition.segments[position]? with
    | .literal _ => none
    | .placeholder name => definition.field? name

end Definition

end Topics
