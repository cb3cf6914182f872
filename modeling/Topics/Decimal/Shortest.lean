import Topics.Decimal.Double

/-! The shortest decimal that reads back as a given number. -/

namespace Topics.Decimal

/-- A decimal: `digits` times ten to the power of `exponent`. -/
structure Scientific where
  /-- The digits, read as one whole number. -/
  digits : Nat
  /-- The power of ten of the last digit. -/
  exponent : Int
  deriving DecidableEq, Repr

/-- The fraction `num / den` divided by ten to the power of `exponent`. -/
def scaleDownTen (num den : Nat) (exponent : Int) : Nat × Nat :=
  if 0 ≤ exponent then (num, den * Nat.pow 10 exponent.toNat)
  else (num * Nat.pow 10 (-exponent).toNat, den)

/-- The power of ten of the first digit of a fraction not smaller than `10 ^ (-400)`. -/
def leadingExponent (num den : Nat) : Int :=
  ((Nat.toDigits 10 (num * Nat.pow 10 400 / den)).length : Int) - 401

/-- The reals that round to a number, in quarters of its last binary place. -/
structure Interval where
  /-- Quarters from zero to the lower end. -/
  low : Nat
  /-- Quarters from zero to the upper end. -/
  high : Nat
  /-- Whether the ends round to the number too. -/
  closed : Bool

/-- The interval of a number; below a power of two the neighbours are half as far apart. -/
def Magnitude.interval (size : Magnitude) : Interval :=
  let number := 4 * size.significand
  let below := if size.significand = Nat.pow 2 52 ∧ -1074 < size.exponent then 1 else 2
  ⟨number - below, number + 2, size.significand % 2 = 0⟩

/-- Whether `candidate` times `unit` lies in the interval, both given in the same measure. -/
def Interval.holds (interval : Interval) (candidate unit : Nat) : Bool :=
  if interval.closed then interval.low * unit ≤ candidate && candidate ≤ interval.high * unit
  else interval.low * unit < candidate && candidate < interval.high * unit

/-- The decimal with `places` digits that lies in the interval, nearest to the number. -/
def shortestWith? (size : Magnitude) (places : Nat) : Option Scientific :=
  -- The grid of decimals with this many digits has two points around the number.
  let (num, den) := size.fraction
  let exponent := leadingExponent num den - places + 1
  let (top, bottom) := scaleDownTen num den exponent
  let below := top / bottom
  let interval := size.interval
  -- One quarter of the last binary place is `top / (4 * significand)` in units of `bottom`.
  let measure (digits : Nat) : Nat := digits * bottom * (4 * size.significand)
  let inside (digits : Nat) : Bool := interval.holds (measure digits) top
  let nearer := roundHalfEven top bottom
  if inside nearer then some ⟨nearer, exponent⟩
  else if inside below then some ⟨below, exponent⟩
  else if inside (below + 1) then some ⟨below + 1, exponent⟩
  else none

/-- The decimal with the fewest digits that reads back as the number. -/
def shortest (size : Magnitude) : Scientific :=
  -- Seventeen digits always tell two neighbours apart.
  if size.significand = 0 then ⟨0, 0⟩
  else ((List.range 17).findSome? (fun places => shortestWith? size (places + 1))).getD ⟨0, 0⟩

/-- The same decimal with its trailing zeros moved into the exponent. -/
def Scientific.trim (number : Scientific) : Scientific :=
  let digits := Nat.toDigits 10 number.digits
  let zeros := (digits.reverse.takeWhile (· == '0')).length
  if number.digits = 0 then number else ⟨number.digits / Nat.pow 10 zeros, number.exponent + zeros⟩

/-- Which exponents of the first digit are written without an exponent part. -/
structure Layout where
  /-- The least such exponent. -/
  least : Int
  /-- The greatest such exponent. -/
  greatest : Int

/-- Writes a decimal; one written without an exponent has at least one digit after its point. -/
def Layout.write (layout : Layout) (number : Scientific) : String :=
  -- The exponent of the first digit decides between the two ways of writing.
  let trimmed := number.trim
  let digits := Nat.toDigits 10 trimmed.digits
  let leading := trimmed.exponent + digits.length - 1
  let zeros (count : Int) : List Char := List.replicate count.toNat '0'
  String.ofList <|
    if leading < layout.least ∨ layout.greatest < leading then
      let sign := if leading < 0 then '-' else '+'
      let mantissa := match digits with
        | first :: next :: rest => first :: '.' :: next :: rest
        | short => short
      mantissa ++ 'e' :: sign :: Nat.toDigits 10 leading.natAbs
    else if 0 ≤ trimmed.exponent then digits ++ zeros trimmed.exponent ++ ['.', '0']
    else if 0 ≤ leading then
      digits.take (leading.toNat + 1) ++ '.' :: digits.drop (leading.toNat + 1)
    else '0' :: '.' :: zeros (-leading - 1) ++ digits

end Topics.Decimal
