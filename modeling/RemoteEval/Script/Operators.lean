import RemoteEval.Script.Fault
import RemoteEval.Value.Render
import RemoteEval.Value.Table

/-!
# Operators and indexing

Operators are functions of values. Integer arithmetic is exact and fails where its result is
no 64-bit integer, an operation of an integer and a floating-point number is carried out on
floating-point numbers, and values are ordered only if they are numbers, texts or
characters.
-/

namespace RemoteEval.Script

/-- The value of an integer, if it has 64 bits. -/
def checkedInt (i : Int) : Except Failure Value :=
  if -(intLimit : Int) ≤ i ∧ i < intLimit then .ok (.int (Int64.ofInt i)) else .error .overflow

/-- The quotient or remainder of integers, which no zero may divide and whose quotient must
have 64 bits. -/
def dividedInt (result : Int → Int → Int) (a b : Int64) : Except Failure Value :=
  if b = 0 then .error .divisionByZero
  else
    match checkedInt (a.toInt.tdiv b.toInt) with
    | .ok _ => checkedInt (result a.toInt b.toInt)
    | .error e => .error e

/-- A number as a floating-point number. -/
def toFloat? : Value → Option Float
  | .int i => some (Number.ofInt64 i)
  | .float x => some x
  | _ => none

/-! ## Order -/

/-- How two floating-point numbers compare, if they do. -/
def floatOrdering? (a b : Float) : Option Ordering :=
  if a < b then some .lt
  else if a == b then some .eq
  else if b < a then some .gt
  else none

/-- How two values compare. Values of kinds that do not compare give nothing, numbers of which
one is undefined give no ordering. -/
def ordering? : Value → Value → Option (Option Ordering)
  | .int a, .int b => some (some (compare a.toInt b.toInt))
  | .str a, .str b => some (some (compare a b))
  | .char a, .char b => some (some (compare a b))
  | a, b =>
    match toFloat? a, toFloat? b with
    | some x, some y => some (floatOrdering? x y)
    | _, _ => none

/-- Whether an ordering is one that a comparison asks for. -/
def BinaryOp.holds : BinaryOp → Ordering → Bool
  | .lt, o => o == .lt
  | .le, o => o != .gt
  | .gt, o => o == .gt
  | .ge, o => o != .lt
  | _, _ => false

/-! ## Arithmetic -/

/-- The operands of an operator as a mismatch. -/
def mismatch (op : BinaryOp) (a b : Value) : Except Failure Value :=
  .error (.operands op a.kind b.kind)

/-- An arithmetic operator on integers. -/
def intArithmetic (op : BinaryOp) (a b : Int64) : Except Failure Value :=
  match op with
  | .add => checkedInt (a.toInt + b.toInt)
  | .sub => checkedInt (a.toInt - b.toInt)
  | .mul => checkedInt (a.toInt * b.toInt)
  | .div => dividedInt Int.tdiv a b
  | .rem => dividedInt Int.tmod a b
  | op => mismatch op (.int a) (.int b)

/-- An arithmetic operator on floating-point numbers. -/
def floatArithmetic? (op : BinaryOp) (a b : Float) : Option Float :=
  match op with
  | .add => some (a + b)
  | .sub => some (a - b)
  | .mul => some (a * b)
  | .div => some (a / b)
  | .rem => some (Number.remainder a b)
  | _ => none

/-- An arithmetic operator on any values. -/
def arithmetic (op : BinaryOp) (a b : Value) : Except Failure Value :=
  match op, a, b with
  | .add, .str s, .str t => .ok (.str (s ++ t))
  | .add, .str s, .char c => .ok (.str (s.push c))
  | .add, .array xs, .array ys => .ok (.array (xs ++ ys))
  | op, .int i, .int j => intArithmetic op i j
  | op, a, b =>
    match toFloat? a, toFloat? b with
    | some x, some y =>
      match floatArithmetic? op x y with
      | some z => .ok (.float z)
      | none => mismatch op a b
    | _, _ => mismatch op a b

/-! ## All operators -/

/-- An operator applied to two values. -/
def BinaryOp.apply (op : BinaryOp) (a b : Value) : Except Failure Value :=
  match op with
  | .eq => .ok (.bool (a.equal b))
  | .ne => .ok (.bool (!a.equal b))
  | .lt | .le | .gt | .ge =>
    match ordering? a b with
    | some (some o) => .ok (.bool (op.holds o))
    | some none => .ok (.bool false)
    | none => mismatch op a b
  | op => arithmetic op a b

/-- Whether the left operand alone decides, and what it decides. -/
def BinaryOp.decided? : BinaryOp → Value → Option Bool
  | .and, a => if a.isTruthy then none else some false
  | .or, a => if a.isTruthy then some true else none
  | _, _ => none

/-- An operator applied to two values of which the left one does not decide. -/
def BinaryOp.combine (op : BinaryOp) (a b : Value) : Except Failure Value :=
  match op with
  | .and | .or => .ok (.bool b.isTruthy)
  | op => op.apply a b

/-- An operator applied to one value. -/
def PrefixOp.apply : PrefixOp → Value → Except Failure Value
  | .not, v => .ok (.bool (!v.isTruthy))
  | .neg, .int i => checkedInt (-i.toInt)
  | .neg, .float x => .ok (.float (-x))
  | .neg, v => .error (.notNegated v.kind)

/-! ## Indexing -/

/-- The item at an index that counts from zero. -/
def itemAt? {α : Type} (items : List α) (i : Int64) : Option α :=
  if i.toInt < 0 then none else items[i.toInt.toNat]?

/-- An item of an array, a character of a text or the value of a key. -/
def indexed : Value → Value → Except Failure Value
  | .array items, .int i =>
    match itemAt? items i with
    | some v => .ok v
    | none => .error (.outOfRange i)
  | .str s, .int i =>
    match itemAt? s.toList i with
    | some c => .ok (.char c)
    | none => .error (.outOfRange i)
  | .map entries, key =>
    match Table.get? key entries with
    | some v => .ok v
    | none => .error (.missingKey key.text)
  | target, index => .error (.notIndexed target.kind index.kind)

end RemoteEval.Script
