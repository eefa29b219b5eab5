/-!
# Resources

A resource is a script that a host has loaded. A `Handle` names it and the resources it
depends on.
-/

namespace RemoteEval.Resource

/-- A resource with what it depends on. -/
structure Handle where
  /-- The name by which the resource is known. -/
  identity : String
  /-- The names of the resources that come before it. -/
  dependencies : List String
deriving DecidableEq, Repr

/-- What a cycle among dependencies leads to. -/
inductive CycleMode where
  /-- The dependency that closes the cycle is passed over. -/
  | lenient
  /-- There is no order. -/
  | strict
deriving DecidableEq, Repr

/-- An item that depends on itself, through others or alone. -/
structure CyclicDependency (α : Type) where
  /-- The item at which the cycle closed. -/
  item : α
deriving DecidableEq, Repr

end RemoteEval.Resource
