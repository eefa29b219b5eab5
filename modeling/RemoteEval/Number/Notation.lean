import RemoteEval.Number.Shortest

/-!
# Written numbers

A floating-point number is written with its shortest digits. `Layout` holds the decisions of
a format : which numbers are written positionally, and what follows a whole number.
`plain` is the layout of values shown to a reader, `exact` the layout of values shown for
inspection.
-/

namespace RemoteEval.Number

/-- How a number is laid out. -/
structure Layout where
  /-- Whether numbers whose leading digit stands for `10 ^ magnitude` are written
  positionally. -/
  positional : (magnitude : Int) → Bool
  /-- What follows a whole number that is written positionally. -/
  wholeTail : List Char

/-- Positional at every magnitude, and a whole number stands alone. -/
def Layout.plain : Layout := ⟨fun _ => true, []⟩

/-- Positional from one ten-thousandth up to sixteen whole digits, and a whole number shows a
zero behind its point. -/
def Layout.exact : Layout := ⟨fun magnitude => -4 ≤ magnitude && magnitude < 16, ['.', '0']⟩

/-- The digits without the zeros at their end, but at least one digit. -/
def significant (digits : List Char) : List Char :=
  match (digits.reverse.dropWhile (· = '0')).reverse with
  | [] => ['0']
  | kept => kept

/-- Positional text of digits of which `whole` stand before the point. -/
def positionalText (digits : List Char) (whole : Int) (wholeTail : List Char) : List Char :=
  if whole ≤ 0 then
    '0' :: '.' :: List.replicate (-whole).toNat '0' ++ digits
  else if digits.length ≤ whole.toNat then
    digits ++ List.replicate (whole.toNat - digits.length) '0' ++ wholeTail
  else
    digits.take whole.toNat ++ '.' :: digits.drop whole.toNat

/-- Text with one digit before the point and an exponent of ten. -/
def scientificText (digits : List Char) (magnitude : Int) : List Char :=
  let mantissa :=
    match digits with
    | [] => ['0']
    | [d] => [d]
    | d :: rest => d :: '.' :: rest
  mantissa ++ 'e' :: (toString magnitude).toList

/-- The digits of a decimal and how many of them stand before the point. -/
def Decimal.spread (d : Decimal) : List Char × Int :=
  let all := Nat.toDigits 10 d.coefficient
  (significant all, all.length + d.exponent)

/-- Text of a magnitude. -/
def Layout.magnitudeText (layout : Layout) (m : Magnitude) : List Char :=
  let (digits, whole) := (shortest m).spread
  if m.units = 0 || layout.positional (whole - 1) then
    positionalText digits whole layout.wholeTail
  else
    scientificText digits (whole - 1)

/-- Text of a number : the sign of every negative number is written, that of zero included. -/
def Layout.text (layout : Layout) (x : Float) : String :=
  match read x with
  | .undefined => "NaN"
  | .infinite false => "inf"
  | .infinite true => "-inf"
  | .finite false m => String.ofList (layout.magnitudeText m)
  | .finite true m => String.ofList ('-' :: layout.magnitudeText m)

end RemoteEval.Number
