import RemoteEval.Value.Basic
import RemoteEval.Number.Binary64

/-!
# Equality of values

`Value.equal` compares values by kind and content. An integer equals a floating-point number
if the number nearest to it does, arrays and maps compare item by item in order, and two
sequences are equal only if they are the same one. No undefined number equals anything.
-/

namespace RemoteEval.Value

mutual

/-- Whether two values are equal. -/
def equal : Value → Value → Bool
  | null, null => true
  | bool a, bool b => a == b
  | int a, int b => a == b
  | float a, float b => a == b
  | int a, float b => Number.ofInt64 a == b
  | float a, int b => Number.ofInt64 b == a
  | str a, str b => a == b
  | char a, char b => a == b
  | array a, array b => equalItems a b
  | map a, map b => equalEntries a b
  | seq a _, seq b _ => a == b
  | object a, object b => a == b
  | _, _ => false

/-- Whether two lists have equal values at the same places. -/
def equalItems : List Value → List Value → Bool
  | [], [] => true
  | a :: as, b :: bs => a.equal b && equalItems as bs
  | _, _ => false

/-- Whether two lists have equal keys and values at the same places. -/
def equalEntries : List (Value × Value) → List (Value × Value) → Bool
  | [], [] => true
  | (j, a) :: as, (k, b) :: bs => j.equal k && a.equal b && equalEntries as bs
  | _, _ => false

end

end RemoteEval.Value
