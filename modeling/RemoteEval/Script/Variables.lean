import RemoteEval.Script.Parse

/-!
# Variables of a program

The names of the variables that a program reads or binds, in the order in which they stand in it.
The name of a function is none of them. An input mentions the variables of the program it is, and
none if it is no program (`mentioned`).
-/

namespace RemoteEval.Script

mutual

/-- The variables that an expression reads. -/
def Expr.variables : Expr → List String
  | .var name => [name]
  | .array items => Expr.variablesItems items
  | .map entries => Expr.variablesEntries entries
  | .index target i _ => target.variables ++ i.variables
  | .call _ args _ => Expr.variablesItems args
  | .unary _ operand _ => operand.variables
  | .binary _ left right _ => left.variables ++ right.variables
  | _ => []

/-- The variables of some expressions. -/
def Expr.variablesItems : List Expr → List String
  | [] => []
  | e :: rest => e.variables ++ Expr.variablesItems rest

/-- The variables of some keys and values. -/
def Expr.variablesEntries : List (Expr × Expr) → List String
  | [] => []
  | (k, v) :: rest => k.variables ++ v.variables ++ Expr.variablesEntries rest

end

/-- The variables that a statement reads or binds. -/
def Statement.variables : Statement → List String
  | .assign name value => name :: value.variables
  | .bare e => e.variables

/-- The variables that an input mentions. -/
def mentioned (input : String) : List String :=
  match parse input.toList with
  | .ok program => program.flatMap Statement.variables
  | .error _ => []

end RemoteEval.Script
