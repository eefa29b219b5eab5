import RemoteEval.Script.Expr
import RemoteEval.Script.Parse

/-!
# Why an evaluation fails

`Failure` lists what can go wrong while a program runs, `Fault` everything that can end an
evaluation. `Fault.kind` and `Fault.message` are what is told about one, and `Fault.report` is
both in one line.
-/

namespace RemoteEval.Script

/-- What can go wrong while a program runs. Kinds are names of kinds of values. -/
inductive Failure where
  /-- A call that yields nothing, used as an operand. -/
  | noValue (function : String)
  /-- A call with a wrong number of arguments. -/
  | arity (function : String) (expected got : Nat)
  /-- The length of a sequence that cannot be walked. -/
  | notWalked
  /-- The length of what has none. -/
  | noLength (kind : String)
  /-- Ends of a range that are no integers. -/
  | rangeEnds
  /-- The keys of what has none. -/
  | noKeys (kind : String)
  /-- A number that is no character. -/
  | characterCode
  /-- A time that is no integer. -/
  | duration
  /-- An index where there is no item. -/
  | outOfRange (index : Int64)
  /-- A key that no entry has, as text. -/
  | missingKey (key : String)
  /-- An index that what is indexed does not take. -/
  | notIndexed (target index : String)
  /-- The negative of what is no number. -/
  | notNegated (kind : String)
  /-- An integer out of range. -/
  | overflow
  /-- A quotient or remainder by the integer zero. -/
  | divisionByZero
  /-- Operands that an operator does not take. -/
  | operands (op : BinaryOp) (left right : String)
deriving DecidableEq

/-- What a failure says. -/
def Failure.message : Failure → String
  | noValue function => "`" ++ function ++ "` does not produce a value"
  | arity function expected got =>
    "`" ++ function ++ "` takes " ++ toString expected ++ " argument(s), got " ++ toString got
  | notWalked => "sequence cannot be iterated"
  | noLength kind => kind ++ " has no length"
  | rangeEnds => "`range` expects two integers"
  | noKeys kind => kind ++ " has no keys"
  | characterCode => "`chr` expects a valid character code"
  | duration => "`sleep` expects milliseconds"
  | outOfRange index => "index " ++ toString index.toInt ++ " is out of range"
  | missingKey key => "key " ++ key ++ " not found"
  | notIndexed target index => "cannot index " ++ target ++ " with " ++ index
  | notNegated kind => "cannot negate " ++ kind
  | overflow => "arithmetic overflow"
  | divisionByZero => "division by zero"
  | operands op left right =>
    "operator " ++ op.name ++ " cannot be applied to " ++ left ++ " and " ++ right

/-- What ends an evaluation before its result. -/
inductive Fault where
  /-- The input is no program, whatever follows. -/
  | malformed (position : Position) (cause : Malformation)
  /-- A name that stands for nothing. -/
  | undefined (name : String)
  /-- A failure of the construct at a position. -/
  | failed (position : Position) (cause : Failure)
  /-- A request to stop. -/
  | interrupted

namespace Fault

/-- The name of a fault's kind. -/
def kind : Fault → String
  | malformed .. => "SyntaxError"
  | undefined _ => "NameError"
  | failed .. => "RuntimeError"
  | interrupted => "InterruptedError"

/-- What a fault says. -/
def message : Fault → String
  | malformed position cause => position.text ++ ": " ++ cause.message
  | undefined name => "the name `" ++ name ++ "` does not exist in the current context"
  | failed position cause => position.text ++ ": " ++ cause.message
  | interrupted => "evaluation was interrupted"

/-- The kind of a fault and what it says. -/
def report (f : Fault) : String :=
  f.kind ++ ": " ++ f.message

end Fault

end RemoteEval.Script
