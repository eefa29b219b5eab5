import RemoteEval.Script.Expr
import RemoteEval.Script.Token

/-!
# The grammar of programs

Which words are which program, rule by rule. A rule says nothing of where a word stands, so the
expressions it yields have the offset zero throughout. Binary operators stand on six levels
(`operators`), the loosest first, and group to the left : a chain of level `n` has a chain of
level `n` before its last operator and a tighter one behind it.

`Derives` is the relation between words and programs, `Viable` says of words that some program
starts with them.
-/

namespace RemoteEval.Script

namespace Grammar

/-- The binary operators of a level, one being the loosest. -/
def operators : (level : Nat) → List (Mark × BinaryOp)
  | 1 => [(.eitherHolds, .or)]
  | 2 => [(.bothHold, .and)]
  | 3 => [(.equal, .eq), (.notEqual, .ne)]
  | 4 => [(.less, .lt), (.lessEqual, .le), (.greater, .gt), (.greaterEqual, .ge)]
  | 5 => [(.plus, .add), (.minus, .sub)]
  | 6 => [(.star, .mul), (.slash, .div), (.percent, .rem)]
  | _ => []

/-- The operators in front of an operand. -/
def prefixes : List (Mark × PrefixOp) := [(.minus, .neg), (.bang, .not)]

/-- The level of an operand that no binary operator is part of. -/
def operandLevel : Nat := 7

/-- A literal is one word. -/
inductive Literal : Token → Expr → Prop where
  | null : Literal .null .null
  | bool (b : Bool) : Literal (.bool b) (.bool b)
  | int (i : Int64) : Literal (.int i) (.int i)
  | float (x : Float) : Literal (.float x) (.float x)
  | str (s : String) : Literal (.str s) (.str s)
  | char (c : Char) : Literal (.char c) (.char c)

mutual

/-- A literal, a variable, a call, or anything between brackets. -/
inductive Atom : List Token → Expr → Prop where
  | literal {t : Token} {e : Expr} : Literal t e → Atom [t] e
  | var (name : String) : Atom [.name name] (.var name)
  | call (name : String) {ts : List Token} {args : List Expr} : Items ts args →
      Atom (.name name :: .mark .openParen :: (ts ++ [.mark .closeParen])) (.call name args 0)
  | array {ts : List Token} {items : List Expr} : Items ts items →
      Atom (.mark .openBracket :: (ts ++ [.mark .closeBracket])) (.array items)
  | map {ts : List Token} {entries : List (Expr × Expr)} : Entries ts entries →
      Atom (.mark .openBrace :: (ts ++ [.mark .closeBrace])) (.map entries)
  | group {ts : List Token} {e : Expr} : Chain 1 ts e →
      Atom (.mark .openParen :: (ts ++ [.mark .closeParen])) e

/-- An atom with any number of indices behind it. -/
inductive Indexed : List Token → Expr → Prop where
  | atom {ts : List Token} {e : Expr} : Atom ts e → Indexed ts e
  | index {ts us : List Token} {target i : Expr} : Indexed ts target → Chain 1 us i →
      Indexed (ts ++ .mark .openBracket :: (us ++ [.mark .closeBracket])) (.index target i 0)

/-- Any number of operators in front of an indexed atom. -/
inductive Operand : List Token → Expr → Prop where
  | indexed {ts : List Token} {e : Expr} : Indexed ts e → Operand ts e
  | prefixed {m : Mark} {op : PrefixOp} {ts : List Token} {e : Expr} : (m, op) ∈ prefixes →
      Operand ts e → Operand (.mark m :: ts) (.unary op e 0)

/-- Operands with binary operators of at least a level between them. -/
inductive Chain : Nat → List Token → Expr → Prop where
  | operand {ts : List Token} {e : Expr} : Operand ts e → Chain operandLevel ts e
  | looser {level : Nat} {ts : List Token} {e : Expr} : Chain (level + 1) ts e → Chain level ts e
  | binary {level : Nat} {m : Mark} {op : BinaryOp} {ts us : List Token} {left right : Expr} :
      (m, op) ∈ operators level → Chain level ts left → Chain (level + 1) us right →
      Chain level (ts ++ .mark m :: us) (.binary op left right 0)

/-- Expressions with a comma between each two, and perhaps one behind the last. -/
inductive Items : List Token → List Expr → Prop where
  | nil : Items [] []
  | last {ts : List Token} {e : Expr} : Chain 1 ts e → Items ts [e]
  | cons {ts us : List Token} {e : Expr} {es : List Expr} : Chain 1 ts e → Items us es →
      Items (ts ++ .mark .comma :: us) (e :: es)

/-- Keys and values with a comma between each two entries, and perhaps one behind the last. -/
inductive Entries : List Token → List (Expr × Expr) → Prop where
  | nil : Entries [] []
  | last {ks vs : List Token} {k v : Expr} : Chain 1 ks k → Chain 1 vs v →
      Entries (ks ++ .mark .colon :: vs) [(k, v)]
  | cons {ks vs us : List Token} {k v : Expr} {es : List (Expr × Expr)} : Chain 1 ks k →
      Chain 1 vs v → Entries us es →
      Entries (ks ++ .mark .colon :: (vs ++ .mark .comma :: us)) ((k, v) :: es)

end

/-- A binding, or an expression by itself. -/
inductive Line : List Token → Statement → Prop where
  | assign (name : String) {ts : List Token} {e : Expr} : Chain 1 ts e →
      Line (.name name :: .mark .assign :: ts) (.assign name e)
  | bare {ts : List Token} {e : Expr} : Chain 1 ts e → Line ts (.bare e)

/-- A statement or nothing. -/
inductive Slot : List Token → Program → Prop where
  | empty : Slot [] []
  | line {ts : List Token} {s : Statement} : Line ts s → Slot ts [s]

/-- Statements or nothing, with a separator between each two. -/
inductive Derives : List Token → Program → Prop where
  | slot {ts : List Token} {p : Program} : Slot ts p → Derives ts p
  | cons {ts us : List Token} {p q : Program} : Slot ts p → Derives us q →
      Derives (ts ++ .mark .semicolon :: us) (p ++ q)

/-- Some program starts with the words. -/
def Viable (ws : List Token) : Prop :=
  ∃ more p, Derives (ws ++ more) p

end Grammar

/-! ## Expressions without offsets -/

mutual

/-- An expression with every offset zero. -/
def Expr.unplaced : Expr → Expr
  | .array items => .array (Expr.unplacedItems items)
  | .map entries => .map (Expr.unplacedEntries entries)
  | .index target i _ => .index target.unplaced i.unplaced 0
  | .call name args _ => .call name (Expr.unplacedItems args) 0
  | .unary op operand _ => .unary op operand.unplaced 0
  | .binary op left right _ => .binary op left.unplaced right.unplaced 0
  | e => e

/-- Expressions with every offset zero. -/
def Expr.unplacedItems : List Expr → List Expr
  | [] => []
  | e :: rest => e.unplaced :: Expr.unplacedItems rest

/-- Entries with every offset zero. -/
def Expr.unplacedEntries : List (Expr × Expr) → List (Expr × Expr)
  | [] => []
  | (k, v) :: rest => (k.unplaced, v.unplaced) :: Expr.unplacedEntries rest

end

/-- A statement with every offset zero. -/
def Statement.unplaced : Statement → Statement
  | .assign name value => .assign name value.unplaced
  | .bare e => .bare e.unplaced

/-- A program with every offset zero. -/
def Program.unplaced (p : Program) : Program :=
  p.map Statement.unplaced

end RemoteEval.Script
