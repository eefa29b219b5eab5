import RemoteEval.Script.Action
import RemoteEval.Script.Operators

/-!
# Functions

The functions a script can call (`Builtin`). `Builtin.apply` applies one to the values of its
arguments : `print` and `sleep` yield nothing, the others a value.
-/

namespace RemoteEval.Script

/-- A function. -/
inductive Builtin where
  /-- Emit the plain texts of the arguments as a message. -/
  | print
  /-- How many items a value has. -/
  | len
  /-- The sequence of the integers between two ends. -/
  | range
  /-- The keys of a map. -/
  | keys
  /-- The character of a code. -/
  | chr
  /-- The plain text of a value. -/
  | str
  /-- The kind of a value. -/
  | type
  /-- Wait for some milliseconds. -/
  | sleep
deriving DecidableEq, Repr

namespace Builtin

/-- All functions. -/
def all : List Builtin := [print, len, range, keys, chr, str, type, sleep]

/-- The name of a function. -/
def name : Builtin → String
  | print => "print"
  | len => "len"
  | range => "range"
  | keys => "keys"
  | chr => "chr"
  | str => "str"
  | type => "type"
  | sleep => "sleep"

/-- The function of a name. -/
def ofName? (name : String) : Option Builtin :=
  all.find? fun b => b.name = name

/-- How many arguments a function takes, if that is fixed. -/
def arity? : Builtin → Option Nat
  | print => none
  | range => some 2
  | _ => some 1

/-- The largest integer. -/
def largest : Nat := intLimit - 1

/-- The integer of a count, or the largest one. -/
def countValue (n : Nat) : Value :=
  .int (Int64.ofNat (min n largest))

/-- How many items a sequence yields, if it can be walked. -/
def walkLength? {α : Type} : Source α → Option Nat
  | .range start stop => some (Source.rangeLength start stop)
  | .items values => some values.length
  | .refused _ => none
  | .echo times => some times

/-- The length of a value. Walking a sequence that yields anything can be stopped. -/
def length (c : Context) (offset : Nat) : Value → Action Nat
  | .str s => pure s.length
  | .array items => pure items.length
  | .map entries => pure entries.length
  | .seq _ source =>
    match walkLength? source with
    | none => Action.failAt c offset .notWalked
    | some 0 => pure 0
    | some n => do
      Action.poll c.surroundings
      return n
  | v => Action.failAt c offset (.noLength v.kind)

/-- The character of a code. -/
def character? : Value → Option Char
  | .int i =>
    if 0 ≤ i.toInt ∧ i.toInt.toNat.isValidChar then some (Char.ofNat i.toInt.toNat) else none
  | _ => none

/-- Apply a function to as many values as it takes. The wait of `sleep` is left to the
surroundings, which can stop it. -/
def run (c : Context) (offset : Nat) : Builtin → List Value → Action (Option Value)
  | print, args => do
    let texts ← Action.plainTexts c.surroundings args
    Action.emit c.surroundings (" ".intercalate texts)
    return none
  | len, [v] => do
    let n ← length c offset v
    return some (countValue n)
  | range, [.int start, .int stop] => do
    let v ← Action.newSequence (.range start stop)
    return some v
  | range, _ => Action.failAt c offset .rangeEnds
  | keys, [.map entries] => pure (some (.array (Table.keys entries)))
  | keys, [v] => Action.failAt c offset (.noKeys v.kind)
  | chr, [v] =>
    match character? v with
    | some c => pure (some (.char c))
    | none => Action.failAt c offset .characterCode
  | str, [v] => do
    let s ← Action.plainText c.surroundings v
    return some (.str s)
  | type, [v] => pure (some (.object v.kind))
  | sleep, [.int _] => do
    Action.poll c.surroundings
    return none
  | sleep, _ => Action.failAt c offset .duration
  | _, _ => pure none

/-- Apply a function to values, if they are as many as it takes. -/
def apply (c : Context) (offset : Nat) (b : Builtin) (args : List Value) :
    Action (Option Value) :=
  match b.arity? with
  | some n =>
    if args.length = n then b.run c offset args
    else Action.failAt c offset (.arity b.name n args.length)
  | none => b.run c offset args

end Builtin

end RemoteEval.Script
