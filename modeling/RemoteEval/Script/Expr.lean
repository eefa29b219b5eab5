/-!
# Programs

A program is a list of statements over expressions. Indexing, calls and operators keep the
offset at which a message about them points.
-/

namespace RemoteEval.Script

/-- Operators in front of one operand. -/
inductive PrefixOp where
  /-- The negative of a number. -/
  | neg
  /-- The opposite of a truth value. -/
  | not
deriving DecidableEq, Repr

/-- Operators between two operands. -/
inductive BinaryOp where
  | add | sub | mul | div | rem | eq | ne | lt | le | gt | ge | and | or
deriving DecidableEq, Repr

namespace BinaryOp

/-- The name of an operator in messages. -/
def name : BinaryOp → String
  | add => "Add"
  | sub => "Sub"
  | mul => "Mul"
  | div => "Div"
  | rem => "Rem"
  | eq => "Eq"
  | ne => "Ne"
  | lt => "Lt"
  | le => "Le"
  | gt => "Gt"
  | ge => "Ge"
  | and => "And"
  | or => "Or"

/-- How tightly an operator binds, one being the loosest. -/
def level : BinaryOp → Nat
  | or => 1
  | and => 2
  | eq | ne => 3
  | lt | le | gt | ge => 4
  | add | sub => 5
  | mul | div | rem => 6

end BinaryOp

/-- An expression. -/
inductive Expr where
  /-- The absence of a value. -/
  | null
  /-- A truth value. -/
  | bool (b : Bool)
  /-- A whole number. -/
  | int (i : Int64)
  /-- A number with a fraction. -/
  | float (x : Float)
  /-- A text. -/
  | str (s : String)
  /-- A character. -/
  | char (c : Char)
  /-- A variable. -/
  | var (name : String)
  /-- An array of the given items. -/
  | array (items : List Expr)
  /-- A map of the given keys and values. -/
  | map (entries : List (Expr × Expr))
  /-- An item of `target`. -/
  | index (target index : Expr) (offset : Nat)
  /-- A function called with arguments. -/
  | call (name : String) (args : List Expr) (offset : Nat)
  /-- An operator in front of an operand. -/
  | unary (op : PrefixOp) (operand : Expr) (offset : Nat)
  /-- An operator between two operands. -/
  | binary (op : BinaryOp) (left right : Expr) (offset : Nat)

instance : Inhabited Expr := ⟨.null⟩

/-- A statement. -/
inductive Statement where
  /-- Bind a name to the value of an expression. -/
  | assign (name : String) (value : Expr)
  /-- Compute the value of an expression. -/
  | bare (expr : Expr)

/-- Statements in order. -/
abbrev Program := List Statement

end RemoteEval.Script
