import RemoteEval.Value.Equality

/-!
# Tables

The entries of a map, in the order in which their keys were first inserted. `insert` replaces
the value of the first entry whose key equals the new one and keeps that entry's key and
place ; a key that equals none is added at the end. `exchange` also tells the value that was
replaced.
-/

namespace RemoteEval

/-- Keys with their values, in the order of insertion. -/
abbrev Table := List (Value × Value)

namespace Table

/-- The value of the first entry whose key equals `key`. -/
def get? (key : Value) : Table → Option Value
  | [] => none
  | (k, v) :: rest => if k.equal key then some v else get? key rest

/-- Replace the value of the first entry whose key equals `key`, or add an entry. -/
def insert (key value : Value) : Table → Table
  | [] => [(key, value)]
  | (k, v) :: rest => if k.equal key then (k, value) :: rest else (k, v) :: insert key value rest

/-- Insert an entry, and give the value back that it replaces. -/
def exchange (key value : Value) : Table → Option Value × Table
  | [] => (none, [(key, value)])
  | (k, v) :: rest =>
    if k.equal key then (some v, (k, value) :: rest)
    else
      match exchange key value rest with
      | (old, rest) => (old, (k, v) :: rest)

/-- The keys in order. -/
def keys (t : Table) : List Value :=
  t.map Prod.fst

/-- Insert entries one after another into an empty table. -/
def ofEntries (entries : List (Value × Value)) : Table :=
  entries.foldl (fun t e => t.insert e.1 e.2) []

end Table

end RemoteEval
