import RemoteEval.Number.Binary64

/-!
# Shortest decimals

Every real number of an interval around a floating-point number is read as that number
(`Interval`). `shortest` finds a decimal in the interval with the fewest digits, and of the
two that may stand on one grid the nearer, or the larger if both are equally near.
-/

namespace RemoteEval.Number

/-- The value `coefficient · 10 ^ exponent`. -/
structure Decimal where
  /-- The digits, read as one number. -/
  coefficient : Nat
  /-- How many places the digits are shifted to the left. -/
  exponent : Int
deriving DecidableEq, Repr

/-- A number with the reals that are read as it, in units of `2 ^ scale`. -/
structure Interval where
  /-- Exponent of the unit. -/
  scale : Int
  /-- Lower end. -/
  low : Nat
  /-- The number itself. -/
  value : Nat
  /-- Upper end. -/
  high : Nat
  /-- Whether the ends belong to the interval. -/
  closed : Bool
deriving DecidableEq, Repr

/-- The reals that are read as a given positive number : half a unit to each side, only a
quarter below the least of its binade, the ends included for an even number of units. -/
def Magnitude.interval (m : Magnitude) : Interval :=
  let below := if m.units = 1 <<< 52 ∧ leastScale < m.scale then 1 else 2
  ⟨m.scale - 2, 4 * m.units - below, 4 * m.units, 4 * m.units + 2, m.units % 2 = 0⟩

/-- Factors `(a, b)` such that `n` units of `2 ^ scale` are `n * a / b` units of
`10 ^ exponent`. -/
def gridFactors (scale exponent : Int) : Nat × Nat :=
  (Nat.pow 10 (-exponent).toNat <<< scale.toNat, Nat.pow 10 exponent.toNat <<< (-scale).toNat)

/-- Whether `c · 10 ^ exponent` lies in the interval. -/
def Interval.holds (i : Interval) (exponent : Int) (c : Nat) : Bool :=
  let (a, b) := gridFactors i.scale exponent
  if i.closed then i.low * a ≤ c * b && c * b ≤ i.high * a
  else i.low * a < c * b && c * b < i.high * a

/-- The multiple of `10 ^ exponent` in the interval that is nearest to its number, if one of
the two neighbours of the number lies there. -/
def Interval.nearest? (i : Interval) (exponent : Int) : Option Nat :=
  let (a, b) := gridFactors i.scale exponent
  let down := i.value * a / b
  let downGap := i.value * a - down * b
  match i.holds exponent down, i.holds exponent (down + 1) with
  | true, true => some (if 2 * downGap < b then down else down + 1)
  | true, false => some down
  | false, true => some (down + 1)
  | false, false => none

/-- Places by which every positive number exceeds one once shifted. -/
def wideShift : Nat := 342

/-- How many digits stand before the decimal point of a positive number, negative where zeros
follow the point. -/
def Magnitude.wholeDigits (m : Magnitude) : Int :=
  let shifted := (m.units * Nat.pow 10 wideShift) <<< m.scale.toNat >>> (-m.scale).toNat
  ((Nat.toDigits 10 shifted).length : Int) - wideShift

/-- Try grids of more and more digits, `tries` of them. -/
def Interval.search (i : Interval) : Nat → Int → Option Decimal
  | 0, _ => none
  | tries + 1, exponent =>
    match i.nearest? exponent with
    | some c => some ⟨c, exponent⟩
    | none => i.search tries (exponent - 1)

/-- Most digits that the shortest decimal of a number has. -/
def mostDigits : Nat := 17

/-- A decimal of the fewest digits that is read as the given number. -/
def shortest (m : Magnitude) : Decimal :=
  if m.units = 0 then ⟨0, 0⟩
  else (m.interval.search mostDigits (m.wholeDigits - 1)).getD ⟨0, 0⟩

end RemoteEval.Number
