import RemoteEval.Script.Expr
import RemoteEval.Script.Position
import RemoteEval.Script.Token

/-!
# From tokens to programs

The parser reads one token at a time. Between two tokens its `Stage` says what may come next
and which constructs are open (`Frame`, the innermost first). `step` accepts a token exactly
if some program goes on with it, so the first token refused is where the input goes wrong,
and input that ends inside a statement is only incomplete (`Verdict`).

Operators bind by their levels and to the left : when one arrives, `collapse` closes every
open operator that binds at least as tightly.
-/

namespace RemoteEval.Script

/-- A construct that is open. -/
inductive Frame where
  /-- A name that will be bound. -/
  | assignment (name : String)
  /-- A parenthesis around an expression. -/
  | group
  /-- The arguments of a call so far. -/
  | call (name : String) (offset : Nat) (args : List Expr)
  /-- The items of an array so far. -/
  | array (items : List Expr)
  /-- The entries of a map so far, before a key. -/
  | mapKey (entries : List (Expr × Expr))
  /-- The entries of a map so far, after a key. -/
  | mapValue (entries : List (Expr × Expr)) (key : Expr)
  /-- A bracket behind what is indexed. -/
  | index (target : Expr) (offset : Nat)
  /-- An operator that waits for its operand. -/
  | prefixOp (op : PrefixOp) (offset : Nat)
  /-- An operator that waits for its right operand. -/
  | binary (op : BinaryOp) (left : Expr) (offset : Nat)

/-- What may come next. -/
inductive Stage where
  /-- A statement, another separator, or the end. -/
  | fresh
  /-- An operand, or the end of an empty or trailing list. -/
  | wanted (frames : List Frame)
  /-- What can follow a name. -/
  | named (frames : List Frame) (name : String) (offset : Nat)
  /-- What can follow an operand. -/
  | whole (frames : List Frame) (expr : Expr)

/-- The binary operator that a mark spells. -/
def BinaryOp.ofMark? : Mark → Option BinaryOp
  | .plus => some .add
  | .minus => some .sub
  | .star => some .mul
  | .slash => some .div
  | .percent => some .rem
  | .equal => some .eq
  | .notEqual => some .ne
  | .less => some .lt
  | .lessEqual => some .le
  | .greater => some .gt
  | .greaterEqual => some .ge
  | .bothHold => some .and
  | .eitherHolds => some .or
  | _ => none

/-- Close the open operators that bind at least as tightly as `level`. -/
def collapse (level : Nat) (e : Expr) : List Frame → Expr × List Frame
  | .prefixOp op offset :: rest => collapse level (.unary op e offset) rest
  | .binary op left offset :: rest =>
    if level ≤ op.level then collapse level (.binary op left e offset) rest
    else (e, .binary op left offset :: rest)
  | frames => (e, frames)

/-- Close every open operator. -/
def settle (e : Expr) (frames : List Frame) : Expr × List Frame :=
  collapse 0 e frames

/-- Begin an operand. -/
def beginOperand (frames : List Frame) (t : Placed Token) : Option Stage :=
  match t.item with
  | .bool b => some (.whole frames (.bool b))
  | .null => some (.whole frames .null)
  | .int i => some (.whole frames (.int i))
  | .float x => some (.whole frames (.float x))
  | .str s => some (.whole frames (.str s))
  | .char c => some (.whole frames (.char c))
  | .name n => some (.named frames n t.start)
  | .mark .openParen => some (.wanted (.group :: frames))
  | .mark .openBracket => some (.wanted (.array [] :: frames))
  | .mark .openBrace => some (.wanted (.mapKey [] :: frames))
  | .mark .minus => some (.wanted (.prefixOp .neg t.start :: frames))
  | .mark .bang => some (.wanted (.prefixOp .not t.start :: frames))
  | _ => none

/-- Close a list that is empty or ends with a separator. -/
def closeList? : List Frame → Mark → Option Stage
  | .call name offset args :: rest, .closeParen => some (.whole rest (.call name args offset))
  | .array items :: rest, .closeBracket => some (.whole rest (.array items))
  | .mapKey entries :: rest, .closeBrace => some (.whole rest (.map entries))
  | _, _ => none

/-- Go on where an operand is wanted. -/
def stepWanted (frames : List Frame) (t : Placed Token) : Option Stage :=
  match beginOperand frames t, t.item with
  | some next, _ => some next
  | none, .mark m => closeList? frames m
  | none, _ => none

/-- Go on behind an expression with a mark that belongs to the innermost bracket. -/
def stepBracket (e : Expr) : List Frame → Mark → Option Stage
  | .call name offset args :: rest, .comma =>
    some (.wanted (.call name offset (args ++ [e]) :: rest))
  | .call name offset args :: rest, .closeParen =>
    some (.whole rest (.call name (args ++ [e]) offset))
  | .array items :: rest, .comma => some (.wanted (.array (items ++ [e]) :: rest))
  | .array items :: rest, .closeBracket => some (.whole rest (.array (items ++ [e])))
  | .mapKey entries :: rest, .colon => some (.wanted (.mapValue entries e :: rest))
  | .mapValue entries key :: rest, .comma =>
    some (.wanted (.mapKey (entries ++ [(key, e)]) :: rest))
  | .mapValue entries key :: rest, .closeBrace =>
    some (.whole rest (.map (entries ++ [(key, e)])))
  | .group :: rest, .closeParen => some (.whole rest e)
  | .index target offset :: rest, .closeBracket => some (.whole rest (.index target e offset))
  | _, _ => none

/-- The statement that ends where nothing but it is open. -/
def statement? (e : Expr) : List Frame → Option Statement
  | [] => some (.bare e)
  | [.assignment name] => some (.assign name e)
  | _ => none

/-- The statements read, and what may come next. -/
structure Reading where
  /-- The statements that are complete. -/
  finished : Program
  /-- Where the current statement stands. -/
  stage : Stage

namespace Reading

/-- Nothing has been read. -/
def start : Reading := ⟨[], .fresh⟩

/-- Go on with the current statement. -/
def goOn (r : Reading) (stage : Option Stage) : Option Reading :=
  stage.map fun s => { r with stage := s }

/-- Go on behind an operand. -/
def stepWhole (r : Reading) (frames : List Frame) (e : Expr) (t : Placed Token) :
    Option Reading :=
  match t.item with
  | .mark .openBracket => r.goOn (some (.wanted (.index e t.start :: frames)))
  | .mark .semicolon =>
    (statement? (settle e frames).1 (settle e frames).2).map fun s => ⟨r.finished ++ [s], .fresh⟩
  | .mark m =>
    match BinaryOp.ofMark? m with
    | some op =>
      let (left, rest) := collapse op.level e frames
      r.goOn (some (.wanted (.binary op left t.start :: rest)))
    | none => r.goOn (stepBracket (settle e frames).1 (settle e frames).2 m)
  | _ => none

/-- Go on behind a name : a call, a binding if the name starts its statement, or else a
variable. -/
def stepNamed (r : Reading) (frames : List Frame) (name : String) (offset : Nat)
    (t : Placed Token) : Option Reading :=
  match frames, t.item with
  | _, .mark .openParen => r.goOn (some (.wanted (.call name offset [] :: frames)))
  | [], .mark .assign => r.goOn (some (.wanted [.assignment name]))
  | _, _ => r.stepWhole frames (.var name) t

/-- Read one token, if some program goes on with it. -/
def step (r : Reading) (t : Placed Token) : Option Reading :=
  match r.stage with
  | .fresh =>
    match t.item with
    | .mark .semicolon => some r
    | _ => r.goOn (beginOperand [] t)
  | .wanted frames => r.goOn (stepWanted frames t)
  | .named frames name offset => r.stepNamed frames name offset t
  | .whole frames e => r.stepWhole frames e t

/-- The program that the tokens read so far are, if they are one. -/
def program? (r : Reading) : Option Program :=
  let last (frames : List Frame) (e : Expr) :=
    (statement? (settle e frames).1 (settle e frames).2).map fun s => r.finished ++ [s]
  match r.stage with
  | .fresh => some r.finished
  | .wanted _ => none
  | .named frames name _ => last frames (.var name)
  | .whole frames e => last frames e

end Reading

/-- What tokens are. -/
inductive Verdict where
  /-- A program. -/
  | program (p : Program)
  /-- The beginning of a program, and not a program. -/
  | incomplete
  /-- Tokens with which no program goes on from `t`. -/
  | unexpected (t : Placed Token)

/-- Read tokens to the end. -/
def Reading.judge (r : Reading) : List (Placed Token) → Verdict
  | [] =>
    match r.program? with
    | some p => .program p
    | none => .incomplete
  | t :: rest =>
    match r.step t with
    | some next => next.judge rest
    | none => .unexpected t

/-- Judge the tokens of a source. -/
def judge (tokens : List (Placed Token)) : Verdict :=
  Reading.start.judge tokens

end RemoteEval.Script
