import Topics.Decimal.Shortest
import Topics.Numeral
import Topics.OrderedMap

/-! JSON values; objects keep the order of their entries. -/

namespace Topics

namespace Json

/-- A number as it was read: whole where it fits 64 bits, and binary otherwise. -/
inductive Number where
  /-- A whole number from zero on. -/
  | natural (n : UInt64)
  /-- A whole number below zero. -/
  | negative (n : Int)
  /-- Any other number. -/
  | real (value : Decimal.Double)
  deriving DecidableEq, Repr

end Json

/-- A JSON value. -/
inductive Json where
  | null
  | bool (value : Bool)
  | number (value : Json.Number)
  | string (text : String)
  | array (items : List Json)
  | object (entries : List (String × Json))
  deriving Repr

namespace Json

/-- The name of a value's shape in messages. -/
def kind : Json → String
  | null => "null"
  | bool _ => "bool"
  | number _ => "number"
  | string _ => "string"
  | array _ => "array"
  | object _ => "object"

/-- Whether a value is the null value. -/
def isNull : Json → Bool
  | null => true
  | _ => false

/-- Real numbers are written without an exponent from one hundred-thousandth up to sixteen digits. -/
def realLayout : Decimal.Layout := ⟨-5, 15⟩

/-- The text of a number. -/
def Number.write : Number → String
  | natural n => Numeral.write n.toNat
  | negative n => "-" ++ Numeral.write n.natAbs
  | real value =>
    (if value.negative then "-" else "") ++ realLayout.write (Decimal.shortest value.size)

end Json

end Topics
