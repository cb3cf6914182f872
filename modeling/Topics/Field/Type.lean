import Topics.Field.Error
import Topics.Vocabulary

/-! A field holds a 32-byte identifier, a whole number of limited width, or a label. -/

namespace Topics

/-- What a 32-byte identifier identifies. -/
inductive IdentifierKind where
  | address
  | assetId
  | contractId
  | txId
  | hexData
  | bytes32
  deriving DecidableEq, Repr

/-- What a whole number counts. -/
inductive IntegerKind where
  | blockHeight
  | daBlockHeight
  | u32
  deriving DecidableEq, Repr

/-- The type of a field. -/
inductive FieldType where
  /-- 32 bytes. -/
  | identifier (kind : IdentifierKind)
  /-- A number within the width of its kind. -/
  | integer (kind : IntegerKind)
  /-- One word of a vocabulary. -/
  | label (vocabulary : Vocabulary)
  deriving DecidableEq, Repr

/-- The name of an identifier type. -/
def IdentifierKind.name : IdentifierKind → String
  | address => "Address"
  | assetId => "AssetId"
  | contractId => "ContractId"
  | txId => "TxId"
  | hexData => "HexData"
  | bytes32 => "Bytes32"

/-- All identifier types, in the order in which they are listed. -/
def IdentifierKind.all : List IdentifierKind :=
  [address, assetId, contractId, txId, hexData, bytes32]

/-- The name of an integer type. -/
def IntegerKind.name : IntegerKind → String
  | blockHeight => "BlockHeight"
  | daBlockHeight => "DaBlockHeight"
  | u32 => "u32"

/-- The number of bits that an integer type has room for. -/
def IntegerKind.bits : IntegerKind → Nat
  | blockHeight => 64
  | daBlockHeight => 64
  | u32 => 32

/-- All integer types, in the order in which they are listed. -/
def IntegerKind.all : List IntegerKind := [blockHeight, daBlockHeight, u32]

namespace FieldType

/-- The name of a type in messages and schemas. -/
def name : FieldType → String
  | identifier kind => kind.name
  | integer kind => kind.name
  | label vocabulary => vocabulary.name

/-- All field types: identifiers, then integers, then labels. -/
def all : List FieldType :=
  IdentifierKind.all.map identifier ++ IntegerKind.all.map integer ++ Vocabulary.all.map label

/-- Whether values of the type are 32-byte identifiers. -/
def isIdentifier : FieldType → Bool
  | identifier _ => true
  | _ => false

/-- The width of an integer type. -/
def bits? : FieldType → Option Nat
  | integer kind => some kind.bits
  | _ => none

/-- The words of a label type. -/
def words? : FieldType → Option (List String)
  | label vocabulary => some vocabulary.words
  | _ => none

/-- The type known under a name. -/
def ofName (text : String) : Except FieldError FieldType :=
  match all.find? (fun type => type.name == text) with
  | some type => .ok type
  | none => .error (.unknownLiteral "FieldType" text)

end FieldType

end Topics
