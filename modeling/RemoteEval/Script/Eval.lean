import RemoteEval.Script.Builtin

/-!
# Evaluation

Operators and indexing nest to the left, so that a long chain is a deep tree. `walk` descends
to the head of such a chain and collects what is to be done with its value (`Link`), the
innermost first, so that a chain needs no more room than its links. `Expr.eval` walks a whole
expression, `Statement.exec` and `execute` run statements.
-/

namespace RemoteEval.Script

/-- What is done with the value of the operand before. -/
abbrev Link := Value → Action Value

/-- Follow the links of a chain. -/
def follow : List Link → Link
  | [], v => pure v
  | link :: rest, v => do
    let next ← link v
    follow rest next

/-- Call a function with the values of its arguments. -/
def callFunction (c : Context) (name : String) (offset : Nat) (args : List Value) :
    Action (Option Value) :=
  match Builtin.ofName? name with
  | some b => b.apply c offset args
  | none => Action.fail (.undefined name)

/-- The value a call yields, where one is needed. -/
def valueOfCall (c : Context) (name : String) (offset : Nat) : Option Value → Action Value
  | some v => pure v
  | none => Action.failAt c offset (.noValue name)

/-- An operator behind its left operand, with the evaluation of its right one. -/
def binaryLink (c : Context) (op : BinaryOp) (offset : Nat) (right : Action Value) : Link :=
  fun left =>
    match op.decided? left with
    | some b => pure (.bool b)
    | none => do
      let r ← right
      Action.lift c offset (op.combine left r)

/-- An index behind what is indexed, with the evaluation of the index. -/
def indexLink (c : Context) (offset : Nat) (index : Action Value) : Link :=
  fun target => do
    let i ← index
    Action.lift c offset (indexed target i)

mutual

/-- Evaluate an expression, then follow the links behind it. -/
def walk (c : Context) : Expr → List Link → Action Value
  | .null, links => follow links .null
  | .bool b, links => follow links (.bool b)
  | .int i, links => follow links (.int i)
  | .float x, links => follow links (.float x)
  | .str s, links => follow links (.str s)
  | .char ch, links => follow links (.char ch)
  | .var name, links => do
    let v ← Action.lookUp name
    follow links v
  | .array items, links => do
    let vs ← walkItems c items
    follow links (.array vs)
  | .map entries, links => do
    let t ← walkEntries c entries []
    follow links (.map t)
  | .call name args offset, links => do
    let vs ← walkItems c args
    let result ← callFunction c name offset vs
    let v ← valueOfCall c name offset result
    follow links v
  | .unary op operand offset, links => do
    let v ← walk c operand []
    let v ← Action.lift c offset (op.apply v)
    follow links v
  | .index target index offset, links =>
    walk c target (indexLink c offset (walk c index []) :: links)
  | .binary op left right offset, links =>
    walk c left (binaryLink c op offset (walk c right []) :: links)

/-- Evaluate expressions in order. -/
def walkItems (c : Context) : List Expr → Action (List Value)
  | [] => pure []
  | e :: rest => do
    let v ← walk c e []
    let vs ← walkItems c rest
    return v :: vs

/-- Evaluate entries in order, each key before its value, and insert them into a table. -/
def walkEntries (c : Context) : List (Expr × Expr) → Table → Action Table
  | [], t => pure t
  | (key, value) :: rest, t => do
    let k ← walk c key []
    let v ← walk c value []
    walkEntries c rest (t.insert k v)

end

/-- Evaluate an expression. -/
def Expr.eval (c : Context) (e : Expr) : Action Value :=
  walk c e []

/-- Run a statement. Only a call may yield nothing. -/
def Statement.exec (c : Context) : Statement → Action (Option Value)
  | .assign name value => do
    let v ← value.eval c
    Action.bindName name v
    return none
  | .bare (.call name args offset) => do
    let vs ← walkItems c args
    callFunction c name offset vs
  | .bare e => do
    let v ← e.eval c
    return some v

/-- Run statements in order, looking before each whether to stop. The result is that of the
last one, or `result` if there is none. -/
def execute (c : Context) : Program → (result : Option Value) → Action (Option Value)
  | [], result => pure result
  | s :: rest, _ => do
    Action.poll c.surroundings
    let result ← s.exec c
    execute c rest result

end RemoteEval.Script
