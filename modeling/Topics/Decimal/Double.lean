/-! Finite binary numbers of 53 significant bits, computed with exact whole numbers. -/

namespace Topics.Decimal

/-- The size of a finite number: `significand` times two to the power of `exponent`. -/
structure Magnitude where
  /-- A whole number below two to the power of 53. -/
  significand : Nat
  /-- The power of two, between -1074 and 971. -/
  exponent : Int
  deriving DecidableEq, Repr

/-- A finite number with its sign; zero has a sign too. -/
structure Double where
  /-- Whether the number carries a minus sign. -/
  negative : Bool
  /-- Its distance from zero. -/
  size : Magnitude
  deriving DecidableEq, Repr

/-- The whole number nearest to a quotient; a half goes to the even neighbour. -/
def roundHalfEven (num den : Nat) : Nat :=
  -- Twice the remainder tells on which side of the half the quotient lies.
  let quotient := num / den
  let twice := 2 * (num % den)
  if twice < den then quotient
  else if den < twice then quotient + 1
  else quotient + quotient % 2

/-- The fraction `num / den` divided by two to the power of `exponent`. -/
def scaleDown (num den : Nat) (exponent : Int) : Nat × Nat :=
  if 0 ≤ exponent then (num, den * Nat.pow 2 exponent.toNat)
  else (num * Nat.pow 2 (-exponent).toNat, den)

namespace Magnitude

/-- The number zero. -/
def zero : Magnitude := ⟨0, -1074⟩

/-- A number as a fraction of whole numbers. -/
def fraction (size : Magnitude) : Nat × Nat :=
  if 0 ≤ size.exponent then (size.significand * Nat.pow 2 size.exponent.toNat, 1)
  else (size.significand, Nat.pow 2 (-size.exponent).toNat)

/-- The finite number nearest to a positive fraction, or none beyond the largest one. -/
def nearest? (num den : Nat) : Option Magnitude :=
  if num = 0 then some zero
  else
    -- The fraction has between 53 and 54 bits before the point on the first grid.
    let first : Int := (Nat.log2 num : Int) - (Nat.log2 den : Int) - 53
    let (wide, unit) := scaleDown num den first
    let exponent := max (if wide / unit < Nat.pow 2 53 then first else first + 1) (-1074)
    let (top, bottom) := scaleDown num den exponent
    let significand := roundHalfEven top bottom
    -- Rounding up may reach the next power of two, which the next grid holds exactly.
    let rounded : Magnitude :=
      if significand = Nat.pow 2 53 then ⟨Nat.pow 2 52, exponent + 1⟩ else ⟨significand, exponent⟩
    if 971 < rounded.exponent then none else some rounded

/-- The rounded product of two numbers. -/
def times? (a b : Magnitude) : Option Magnitude :=
  let (num, den) := a.fraction
  let (num', den') := b.fraction
  nearest? (num * num') (den * den')

/-- The rounded quotient of two numbers. -/
def dividedBy? (a b : Magnitude) : Option Magnitude :=
  let (num, den) := a.fraction
  let (num', den') := b.fraction
  nearest? (num * den') (den * num')

/-- The number nearest to a power of ten, or zero where none is finite. -/
def powerOfTen (exponent : Nat) : Magnitude := (nearest? (Nat.pow 10 exponent) 1).getD zero

/-- The most decimal places by which one rounded step scales a number. -/
def widestStep : Nat := 308

/-- A number below two to the power of 64, scaled by a power of ten.

Scaling down by more than the widest step takes a second rounded step, and by more than two such
steps leaves nothing. -/
def scaleTen? (size : Magnitude) (exponent : Int) : Option Magnitude :=
  if size.significand = 0 then some zero
  else if 0 ≤ exponent then
    if exponent ≤ widestStep then size.times? (powerOfTen exponent.toNat) else none
  else
    let places := exponent.natAbs
    if places ≤ widestStep then size.dividedBy? (powerOfTen places)
    else if places ≤ 2 * widestStep then do
      let smaller ← size.dividedBy? (powerOfTen widestStep)
      smaller.dividedBy? (powerOfTen (places - widestStep))
    else some zero

end Magnitude

end Topics.Decimal
