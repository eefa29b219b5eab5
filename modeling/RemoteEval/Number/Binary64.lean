/-!
# Binary floating-point numbers

A finite number of the 64-bit format is a sign and a `Magnitude`, a whole number of units
that are powers of two (`read`). Two operations are defined on magnitudes in exact
arithmetic : the remainder of a division that rounds towards zero (`remainder`), and the
number nearest to an integer (`ofInt`).
-/

namespace RemoteEval.Number

/-- The value `units · 2 ^ scale`. -/
structure Magnitude where
  /-- How many units. -/
  units : Nat
  /-- The exponent of the unit. -/
  scale : Int
deriving DecidableEq, Repr

/-- What the 64 bits of a number stand for. -/
inductive Reading where
  /-- Not a number. -/
  | undefined
  /-- An infinity. -/
  | infinite (negative : Bool)
  /-- A finite number, zero included. -/
  | finite (negative : Bool) (magnitude : Magnitude)
deriving DecidableEq, Repr

/-- Exponent of the smallest unit. -/
def leastScale : Int := -1074

/-- Take the bits of a number apart. -/
def read (x : Float) : Reading :=
  let bits := x.toBits.toNat
  let negative := decide (1 <<< 63 ≤ bits)
  let exponent := bits >>> 52 % 1 <<< 11
  let fraction := bits % 1 <<< 52
  if exponent = 2047 then
    if fraction = 0 then .infinite negative else .undefined
  else if exponent = 0 then
    .finite negative ⟨fraction, leastScale⟩
  else
    .finite negative ⟨1 <<< 52 + fraction, leastScale + (exponent - 1 : Nat)⟩

/-- The bits of a magnitude of at most 53 significant bits, written with the smallest unit its
units fit. -/
def Magnitude.bits (m : Magnitude) : Nat :=
  if m.units = 0 then 0
  else
    let shift := min (52 - m.units.log2) (m.scale - leastScale).toNat
    let units := m.units <<< shift
    if units < 1 <<< 52 then units
    else ((m.scale - leastScale).toNat - shift + 1) <<< 52 + (units - 1 <<< 52)

/-- Put a sign and a magnitude of at most 53 significant bits together. -/
def assemble (negative : Bool) (m : Magnitude) : Float :=
  Float.ofBits (UInt64.ofNat ((if negative then 1 <<< 63 else 0) + m.bits))

/-- What is left of `a` after taking away `b` as often as it fits. -/
def Magnitude.remainder (a b : Magnitude) : Magnitude :=
  let scale := min a.scale b.scale
  ⟨a.units <<< (a.scale - scale).toNat % b.units <<< (b.scale - scale).toNat, scale⟩

/-- The remainder of a division whose quotient is rounded towards zero : exact, with the sign
of the dividend. -/
def remainder (x y : Float) : Float :=
  match read x, read y with
  | .finite negative a, .finite _ b =>
    if b.units = 0 then 0 / 0 else assemble negative (a.remainder b)
  | .finite .., .infinite _ => x
  | _, _ => 0 / 0

/-- The number nearest to an integer, a tie going to the even neighbour. -/
def ofInt64 (i : Int64) : Float :=
  Float.ofInt i.toInt

end RemoteEval.Number
