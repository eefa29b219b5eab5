import RemoteEval.Script.Eval

/-!
# Evaluation by recursion

`Expr.denote` evaluates an expression by recursion over its parts, as one reads it : the left
operand, then the right one unless the left one decides, then the operator. `walk` goes down the
left side of an expression first and follows the links it has collected there on its way back.
What a link does with a value is what recursion does once it has come back with it
(`binaryLink_eq`, `indexLink_eq`), so following the links is what is left of the recursion
(`walk_eq`), however long the chain is and whatever its links are. With no links left, the two
evaluations are the same step (`eval_eq_denote`).
-/

namespace RemoteEval.Script

/-! ## Steps in a row -/

namespace Action

variable {α β γ : Type}

theorem bind_apply (a : Action α) (f : α → Action β) (r : Run) :
    (a >>= f) r = match a r with
      | (.ok x, r) => f x r
      | (.error e, r) => (.error e, r) := rfl

instance : LawfulMonad Action :=
  LawfulMonad.mk' Action
    (fun a => by
      funext r
      change (a >>= pure) r = a r
      rw [bind_apply]
      split <;> rename_i h <;> exact h.symm)
    (fun _ _ => rfl)
    (fun a f g => by
      funext r
      simp only [bind_apply]
      rcases a r with ⟨_ | _, _⟩ <;> rfl)

end Action

/-! ## The recursion -/

/-- An operator between two operands : the left one is evaluated, then the right one unless the left
one decides, then the operator is applied. -/
def BinaryOp.between (c : Context) (offset : Nat) (left right : Action Value) :
    BinaryOp → Action Value
  | .and => do
    let l ← left
    if l.isTruthy then
      let r ← right
      return .bool r.isTruthy
    else return .bool false
  | .or => do
    let l ← left
    if l.isTruthy then return .bool true
    else
      let r ← right
      return .bool r.isTruthy
  | op => do
    let l ← left
    let r ← right
    Action.lift c offset (op.apply l r)

mutual

/-- Evaluate an expression by recursion over its parts. -/
def Expr.denote (c : Context) : Expr → Action Value
  | .null => pure .null
  | .bool b => pure (.bool b)
  | .int i => pure (.int i)
  | .float x => pure (.float x)
  | .str s => pure (.str s)
  | .char ch => pure (.char ch)
  | .var name => Action.lookUp name
  | .array items => do
    let vs ← Expr.denoteItems c items
    return .array vs
  | .map entries => do
    let t ← Expr.denoteEntries c entries []
    return .map t
  | .call name args offset => do
    let vs ← Expr.denoteItems c args
    let result ← callFunction c name offset vs
    valueOfCall c name offset result
  | .unary op operand offset => do
    let v ← operand.denote c
    Action.lift c offset (op.apply v)
  | .index target place offset => do
    let t ← target.denote c
    let i ← place.denote c
    Action.lift c offset (indexed t i)
  | .binary op left right offset => op.between c offset (left.denote c) (right.denote c)

/-- The values of expressions, in order. -/
def Expr.denoteItems (c : Context) : List Expr → Action (List Value)
  | [] => pure []
  | e :: rest => do
    let v ← e.denote c
    let vs ← Expr.denoteItems c rest
    return v :: vs

/-- A table with the values of entries inserted in order, each key evaluated before its value. -/
def Expr.denoteEntries (c : Context) : List (Expr × Expr) → Table → Action Table
  | [], t => pure t
  | (key, value) :: rest, t => do
    let k ← key.denote c
    let v ← value.denote c
    Expr.denoteEntries c rest (t.insert k v)

end

/-! ## Links -/

variable {c : Context} {links : List Link}

theorem follow_nil : follow [] = pure := rfl

theorem follow_cons (link : Link) (links : List Link) :
    follow (link :: links) = fun v => link v >>= follow links := rfl

theorem binaryLink_and (offset : Nat) (right : Action Value) (l : Value) :
    binaryLink c .and offset right l =
      if l.isTruthy then right >>= fun r => pure (.bool r.isTruthy) else pure (.bool false) := by
  rw [binaryLink, BinaryOp.decided?]
  cases l.isTruthy <;> rfl

theorem binaryLink_or (offset : Nat) (right : Action Value) (l : Value) :
    binaryLink c .or offset right l =
      if l.isTruthy then pure (.bool true) else right >>= fun r => pure (.bool r.isTruthy) := by
  rw [binaryLink, BinaryOp.decided?]
  cases l.isTruthy <;> rfl

/-- What a link does with the left operand is the operator between the two. -/
theorem binaryLink_eq (op : BinaryOp) (offset : Nat) (left right : Action Value) :
    (left >>= binaryLink c op offset right) = op.between c offset left right := by
  cases op with
  | and => exact bind_congr (binaryLink_and offset right)
  | or => exact bind_congr (binaryLink_or offset right)
  | _ => rfl

theorem indexLink_eq (offset : Nat) (target index : Action Value) :
    (target >>= indexLink c offset index) =
      target >>= fun t => index >>= fun i => Action.lift c offset (indexed t i) := rfl

mutual

/-- To walk an expression is to evaluate it by recursion and to follow the links behind it. -/
theorem walk_eq : ∀ (e : Expr) (links : List Link), walk c e links = e.denote c >>= follow links
  | .null, _ | .bool _, _ | .int _, _ | .float _, _ | .str _, _ | .char _, _ => by
    rw [walk, Expr.denote, pure_bind]
  | .var name, _ => by
    rw [walk, Expr.denote]
  | .array items, _ => by
    rw [walk, Expr.denote, walkItems_eq]
    simp only [bind_assoc, pure_bind]
  | .map entries, _ => by
    rw [walk, Expr.denote, walkEntries_eq]
    simp only [bind_assoc, pure_bind]
  | .call name args offset, _ => by
    rw [walk, Expr.denote, walkItems_eq]
    simp only [bind_assoc]
  | .unary op operand offset, _ => by
    rw [walk, Expr.denote, walk_eq operand, follow_nil, bind_pure]
    simp only [bind_assoc]
  | .index target index offset, _ => by
    rw [walk, Expr.denote, walk_eq target, walk_eq index, follow_nil, bind_pure, follow_cons,
      ← bind_assoc, indexLink_eq]
  | .binary op left right offset, _ => by
    rw [walk, Expr.denote, walk_eq left, walk_eq right, follow_nil, bind_pure, follow_cons,
      ← bind_assoc, binaryLink_eq]

theorem walkItems_eq : ∀ es : List Expr, walkItems c es = Expr.denoteItems c es
  | [] => by rw [walkItems, Expr.denoteItems]
  | e :: rest => by
    rw [walkItems, Expr.denoteItems, walk_eq e, walkItems_eq rest, follow_nil, bind_pure]

theorem walkEntries_eq : ∀ (es : List (Expr × Expr)) (t : Table),
    walkEntries c es t = Expr.denoteEntries c es t
  | [], _ => by rw [walkEntries, Expr.denoteEntries]
  | (key, value) :: rest, t => by
    rw [walkEntries, Expr.denoteEntries, walk_eq key, walk_eq value, follow_nil]
    simp only [bind_pure, walkEntries_eq rest]

end

theorem walk_nil_eq (c : Context) (e : Expr) : walk c e [] = e.denote c := by
  rw [walk_eq, follow_nil, bind_pure]

/-- The loop over the left side of an expression and the recursion are the same step : from every
state they come to the same value or the same fault, with the same messages and the same memory. -/
theorem eval_eq_denote (c : Context) (e : Expr) (r : Run) : e.eval c r = e.denote c r := by
  rw [Expr.eval, walk_nil_eq]

end RemoteEval.Script
