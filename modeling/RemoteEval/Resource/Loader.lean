import RemoteEval.Resource.Catalog
import RemoteEval.Resource.Order
import RemoteEval.Script.Evaluator

/-!
# Loading resources

A script is loaded by evaluating what its file holds. `load` loads one, and `preload` loads all
of a catalog, dependencies first, and counts those that succeed.
-/

namespace RemoteEval.Resource

open Script (Memory Surroundings)

/-- Why a resource is not loaded. -/
inductive LoadError where
  /-- Its file cannot be read. -/
  | unreadable (identity : String)
  /-- Its evaluation fails, with what is said of that. -/
  | failed (identity reason : String)
deriving DecidableEq, Repr

/-- Evaluate the text of a resource. Text that is not complete fails, too. -/
def loadText (identity text : String) (m : Memory) : Except LoadError Unit × Memory :=
  match Script.evaluate .quiet text m with
  | (.error f, r) => (.error (.failed identity f.report), r.memory)
  | (.ok ⟨some _, _⟩, r) => (.error (.failed identity "incomplete script"), r.memory)
  | (.ok ⟨none, _⟩, r) => (.ok (), r.memory)

/-- Load a resource by its identity. -/
def load (fs : FileSystem) (identity : String) (m : Memory) : Except LoadError Unit × Memory :=
  match fs.readText? identity with
  | none => (.error (.unreadable identity), m)
  | some text => loadText identity text m

/-- Load resources in order, whether or not those before succeed, and count the successes. -/
def loadAll (fs : FileSystem) : List String → Memory → Nat × Memory
  | [], m => (0, m)
  | identity :: rest, m =>
    match load fs identity m with
    | (.ok (), m) =>
      let (n, m) := loadAll fs rest m
      (n + 1, m)
    | (.error _, m) => loadAll fs rest m

/-- Load all resources of a catalog, dependencies first. -/
def preload (fs : FileSystem) (handles : List Handle) (m : Memory) : Nat × Memory :=
  loadAll fs ((loadOrder handles).map Handle.identity) m

end RemoteEval.Resource
