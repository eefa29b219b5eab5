import RemoteEval.Value.Basic

/-!
# The memory of an evaluator

An evaluator keeps its variables (`Scope`, in the order of their names), a flag by which it is
asked to stop, and the identity of the next new sequence.
-/

namespace RemoteEval.Script

/-- Variables with their values, in the order of their names. -/
abbrev Scope := List (String × Value)

namespace Scope

/-- The value of a variable. -/
def get? (name : String) : Scope → Option Value
  | [] => none
  | (n, v) :: rest => if n = name then some v else get? name rest

/-- Give a variable a value. -/
def set (name : String) (value : Value) : Scope → Scope
  | [] => [(name, value)]
  | (n, v) :: rest =>
    if n = name then (name, value) :: rest
    else if name < n then (name, value) :: (n, v) :: rest
    else (n, v) :: set name value rest

/-- The names of the variables. -/
def names (s : Scope) : List String :=
  s.map Prod.fst

end Scope

/-- What an evaluator keeps between evaluations. -/
structure Memory where
  /-- The variables. -/
  scope : Scope
  /-- Whether the evaluator was asked to stop. -/
  interrupted : Bool
  /-- The identity of the next new sequence. -/
  nextSequence : Nat

namespace Memory

/-- The memory of a new evaluator. -/
def empty : Memory := ⟨[], false, 0⟩

/-- Ask the evaluator to stop. -/
def interrupt (m : Memory) : Memory :=
  { m with interrupted := true }

end Memory

end RemoteEval.Script
