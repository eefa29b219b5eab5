import RemoteEval.Proofs.Script.Offsets
import RemoteEval.Proofs.Script.Recursion
import RemoteEval.Script.Variables

/-!
# What every evaluation keeps

An expression changes an evaluation only through the few steps it is made of : it looks up names,
looks whether to stop, emits messages, makes sequences, asks for the text of values and fails at the
constructs it has. A relation between steps in two contexts that holds of these, and of two steps in
a row if it holds of both (`Action.Stepwise`), holds of the evaluation of every expression in the two
contexts, in the second of which its constructs may stand at other offsets (`Stepwise.eval`). If it
holds of binding a name, too, it holds of every program (`Stepwise.execute`). What a single
evaluation keeps is the case of a relation that looks at one side only. A relation that holds of
looking up and binding some names only holds of what has no other variables.

The induction over expressions is done here once, along the recursion of `Expr.denote`
(`Composed.denote`). It takes a call in the place of an operand for a single step, because a relation
may hold of such a call that does not hold of the message in it : a call that emits a message yields
nothing and fails there.
-/

namespace RemoteEval.Script

/-! ## Steps -/

variable {α β : Type} {c c' : Context} {move : Nat → Nat} {places : List Nat}
  {names : String → Prop} {offset : Nat} {R : ∀ α : Type, Action α → Action α → Prop}

/-- A relation between steps in two contexts that holds of two steps in a row if it holds of both.
Constructs at `places` may fail, which stand where `move` puts them in the second context. -/
structure Action.Sequential (c c' : Context) (move : Nat → Nat) (places : List Nat)
    (R : ∀ α : Type, Action α → Action α → Prop) : Prop where
  pure : ∀ {α : Type} (x : α), R α (pure x) (pure x)
  bind : ∀ {α β : Type} {a b : Action α} {f g : α → Action β}, R α a b → (∀ x, R β (f x) (g x)) →
    R β (a >>= f) (b >>= g)
  failAt : ∀ {α : Type} {offset : Nat}, offset ∈ places → ∀ e : Failure,
    R α (Action.failAt c offset e) (Action.failAt c' (move offset) e)

/-- Such a relation that holds of looking up `names` and of every call in the place of an
operand. -/
structure Action.Composed (c c' : Context) (move : Nat → Nat) (places : List Nat)
    (names : String → Prop) (R : ∀ α : Type, Action α → Action α → Prop) : Prop extends
    Action.Sequential c c' move places R where
  lookUp : ∀ {name}, names name → R Value (Action.lookUp name) (Action.lookUp name)
  call : ∀ {offset : Nat}, offset ∈ places → ∀ name args, R Value
    (callFunction c name offset args >>= valueOfCall c name offset)
    (callFunction c' name (move offset) args >>= valueOfCall c' name (move offset))

/-- Such a relation that holds of all steps a call is made of but the emission of a message. -/
structure Action.Basic (c c' : Context) (move : Nat → Nat) (places : List Nat)
    (R : ∀ α : Type, Action α → Action α → Prop) : Prop extends
    Action.Sequential c c' move places R where
  undefined : ∀ {α : Type} (name : String),
    R α (Action.fail (.undefined name)) (Action.fail (.undefined name))
  newSequence : ∀ source, R Value (Action.newSequence source) (Action.newSequence source)
  poll : R Unit (Action.poll c.surroundings) (Action.poll c'.surroundings)
  render : ∀ v, R String (Action.render c.surroundings v) (Action.render c'.surroundings v)

/-- Such a relation that holds of all steps an expression with the variables `names` is made of. -/
structure Action.Stepwise (c c' : Context) (move : Nat → Nat) (places : List Nat)
    (names : String → Prop) (R : ∀ α : Type, Action α → Action α → Prop) : Prop extends
    Action.Basic c c' move places R where
  lookUp : ∀ {name}, names name → R Value (Action.lookUp name) (Action.lookUp name)
  emit : ∀ message,
    R Unit (Action.emit c.surroundings message) (Action.emit c'.surroundings message)

theorem Action.Sequential.lift (hR : Action.Sequential c c' move places R) (h : offset ∈ places)
    (e : Except Failure α) : R α (Action.lift c offset e) (Action.lift c' (move offset) e) := by
  cases e with
  | ok x => exact hR.pure x
  | error e => exact hR.failAt h e

/-- Two steps in a row succeed if both do. -/
theorem Action.exists_of_bind_ok {a : Action α} {f : α → Action β} {r r' : Run} {y : β}
    (h : (a >>= f) r = (.ok y, r')) : ∃ x r₁, a r = (.ok x, r₁) ∧ f x r₁ = (.ok y, r') := by
  rw [bind_apply] at h
  split at h
  · next x r₁ heq => exact ⟨x, r₁, heq, h⟩
  · cases h

/-- Of two steps in a row that fail, the first does, or the second once the first has not. -/
theorem Action.of_bind_error {a : Action α} {f : α → Action β} {r r' : Run} {e : Fault}
    (h : (a >>= f) r = (.error e, r')) :
    a r = (.error e, r') ∨ ∃ x r₁, a r = (.ok x, r₁) ∧ f x r₁ = (.error e, r') := by
  rw [bind_apply] at h
  split at h
  · next x r₁ heq => exact .inr ⟨x, r₁, heq, h⟩
  · next heq =>
    cases h
    exact .inl heq

/-- A step leaves what `view` shows of an evaluation as it was, whether or not it succeeds. -/
def Action.Keeps {σ : Type} (view : Run → σ) (a : Action α) : Prop :=
  ∀ r : Run, view (a r).2 = view r

theorem Action.Keeps.view_eq {σ : Type} {view : Run → σ} {a : Action α} (ha : a.Keeps view)
    {r r' : Run} {x : Except Fault α} (h : a r = (x, r')) : view r' = view r := by
  rw [← ha r, h]

theorem Action.Keeps.bind {σ : Type} {view : Run → σ} {a : Action α} {f : α → Action β}
    (ha : a.Keeps view) (hf : ∀ x, (f x).Keeps view) : (a >>= f).Keeps view := by
  intro r
  rw [bind_apply]
  split
  · next heq => exact (hf _ _).trans (ha.view_eq heq)
  · next heq => exact ha.view_eq heq

/-- Failing and doing nothing change nothing at all. -/
theorem Action.Keeps.sequential {σ : Type} (view : Run → σ) :
    Action.Sequential c c' move places fun _ a _ => a.Keeps view where
  pure _ _ := rfl
  bind := bind
  failAt _ _ _ := rfl

theorem Action.Keeps.lookUp {σ : Type} (view : Run → σ) (name : String) :
    (Action.lookUp name).Keeps view := by
  intro r
  unfold Action.lookUp
  split <;> rfl

/-- What shows neither the flag nor how often an evaluation looked at it, nor which sequences there
are, is changed only by an assignment and by a message. -/
theorem Action.Keeps.basic {σ : Type} {view : Run → σ}
    (hview : ∀ (r : Run) (flag : Bool) (next polls : Nat),
      view ⟨⟨r.memory.scope, flag, next⟩, r.messages, polls⟩ = view r) :
    Action.Basic c c' move places fun _ a _ => a.Keeps view where
  toSequential := sequential view
  undefined _ _ := rfl
  newSequence _ r := hview r _ _ _
  poll r := by
    unfold Action.poll
    split <;> exact hview r _ _ _
  render v r := by
    unfold Action.render
    dsimp only
    split <;> exact hview r _ _ _

/-! ## Functions -/

theorem Builtin.name_eq_of_ofName? {name : String} {b : Builtin}
    (h : Builtin.ofName? name = some b) : b.name = name := by
  simpa using List.find?_some h

namespace Action.Basic

variable (hR : Action.Basic c c' move places R)

include hR

theorem plainText (v : Value) :
    R String (Action.plainText c.surroundings v) (Action.plainText c'.surroundings v) := by
  unfold Action.plainText
  split
  · exact hR.pure _
  · exact hR.render _

theorem plainTexts (vs : List Value) :
    R (List String) (Action.plainTexts c.surroundings vs)
      (Action.plainTexts c'.surroundings vs) := by
  induction vs with
  | nil => exact hR.pure _
  | cons v vs ih => exact hR.bind (hR.plainText v) fun _ => hR.bind ih fun _ => hR.pure _

theorem length (h : offset ∈ places) (v : Value) :
    R Nat (Builtin.length c offset v) (Builtin.length c' (move offset) v) := by
  unfold Builtin.length
  split
  · exact hR.pure _
  · exact hR.pure _
  · exact hR.pure _
  · split
    · exact hR.failAt h _
    · exact hR.pure _
    · exact hR.bind hR.poll fun _ => hR.pure _
  · exact hR.failAt h _

theorem run (h : offset ∈ places) {b : Builtin} (hb : b ≠ .print) (args : List Value) :
    R (Option Value) (b.run c offset args) (b.run c' (move offset) args) := by
  unfold Builtin.run
  split
  · exact (hb rfl).elim
  · exact hR.bind (hR.length h _) fun _ => hR.pure _
  · exact hR.bind (hR.newSequence _) fun _ => hR.pure _
  · exact hR.failAt h _
  · exact hR.pure _
  · exact hR.failAt h _
  · split
    · exact hR.pure _
    · exact hR.failAt h _
  · exact hR.bind (hR.plainText _) fun _ => hR.pure _
  · exact hR.pure _
  · exact hR.bind hR.poll fun _ => hR.pure _
  · exact hR.failAt h _
  · exact hR.pure _

/-- What holds of a function with as many arguments as it takes holds of it with any. -/
theorem apply (h : offset ∈ places) (b : Builtin) {args : List Value}
    (hrun : R (Option Value) (b.run c offset args) (b.run c' (move offset) args)) :
    R (Option Value) (b.apply c offset args) (b.apply c' (move offset) args) := by
  unfold Builtin.apply
  split
  · split
    · exact hrun
    · exact hR.failAt h _
  · exact hrun

theorem callFunction (h : offset ∈ places) {name : String} (hname : name ≠ Builtin.print.name)
    (args : List Value) :
    R (Option Value) (Script.callFunction c name offset args)
      (Script.callFunction c' name (move offset) args) := by
  unfold Script.callFunction
  split
  · next b heq =>
    have hb : b ≠ .print := by
      rintro rfl
      exact hname (Builtin.name_eq_of_ofName? heq).symm
    exact hR.apply h b (hR.run h hb args)
  · exact hR.undefined name

theorem valueOfCall (h : offset ∈ places) (name : String) (o : Option Value) :
    R Value (Script.valueOfCall c name offset o)
      (Script.valueOfCall c' name (move offset) o) := by
  unfold Script.valueOfCall
  split
  · exact hR.pure _
  · exact hR.failAt h _

end Action.Basic

namespace Action.Stepwise

variable (hR : Action.Stepwise c c' move places names R)

include hR

theorem callFunction (h : offset ∈ places) (name : String) (args : List Value) :
    R (Option Value) (Script.callFunction c name offset args)
      (Script.callFunction c' name (move offset) args) := by
  by_cases hname : name = Builtin.print.name
  · subst hname
    exact hR.bind (hR.plainTexts args) fun _ => hR.bind (hR.emit _) fun _ => hR.pure _
  · exact hR.toBasic.callFunction h hname args

theorem composed : Action.Composed c c' move places names R where
  toSequential := hR.toSequential
  lookUp := hR.lookUp
  call h name args := hR.bind (hR.callFunction h name args) fun o => hR.valueOfCall h name o

end Action.Stepwise

/-! ## Expressions -/

namespace Action.Composed

variable (hR : Action.Composed c c' move places names R)

include hR

theorem between (h : offset ∈ places) (op : BinaryOp) {left left' right right' : Action Value}
    (hleft : R Value left left') (hright : R Value right right') :
    R Value (op.between c offset left right) (op.between c' (move offset) left' right') := by
  unfold BinaryOp.between
  split
  · refine hR.bind hleft fun l => ?_
    split
    · exact hR.bind hright fun _ => hR.pure _
    · exact hR.pure _
  · refine hR.bind hleft fun l => ?_
    split
    · exact hR.pure _
    · exact hR.bind hright fun _ => hR.pure _
  · exact hR.bind hleft fun _ => hR.bind hright fun _ => hR.lift h _

mutual

theorem denote : ∀ e : Expr, e.offsets ⊆ places → (∀ name ∈ e.variables, names name) →
    R Value (e.denote c) ((e.moved move).denote c')
  | .null, _, _ | .bool _, _, _ | .int _, _, _ | .float _, _, _ | .str _, _, _ | .char _, _, _ => by
    simp only [Expr.moved, Expr.denote]
    exact hR.pure _
  | .var name, _, hnames => by
    simp only [Expr.moved, Expr.denote]
    exact hR.lookUp (hnames name List.mem_cons_self)
  | .array items, hsub, hnames => by
    simp only [Expr.moved, Expr.denote]
    exact hR.bind (denoteItems items hsub hnames) fun _ => hR.pure _
  | .map entries, hsub, hnames => by
    simp only [Expr.moved, Expr.denote]
    exact hR.bind (denoteEntries entries [] hsub hnames) fun _ => hR.pure _
  | .call name args offset, hsub, hnames => by
    simp only [Expr.moved, Expr.denote]
    obtain ⟨hoffset, hargs⟩ := List.cons_subset.1 hsub
    exact hR.bind (denoteItems args hargs hnames) fun vs => hR.call hoffset name vs
  | .unary op operand offset, hsub, hnames => by
    simp only [Expr.moved, Expr.denote]
    obtain ⟨hoffset, hoperand⟩ := List.cons_subset.1 hsub
    exact hR.bind (denote operand hoperand hnames) fun _ => hR.lift hoffset _
  | .index target index offset, hsub, hnames => by
    simp only [Expr.moved, Expr.denote]
    obtain ⟨hoffset, hparts⟩ := List.cons_subset.1 hsub
    obtain ⟨htarget, hindex⟩ := List.append_subset.1 hparts
    obtain ⟨hnames, hnames'⟩ := List.forall_mem_append.1 hnames
    exact hR.bind (denote target htarget hnames) fun _ =>
      hR.bind (denote index hindex hnames') fun _ => hR.lift hoffset _
  | .binary op left right offset, hsub, hnames => by
    simp only [Expr.moved, Expr.denote]
    obtain ⟨hoffset, hparts⟩ := List.cons_subset.1 hsub
    obtain ⟨hleft, hright⟩ := List.append_subset.1 hparts
    obtain ⟨hnames, hnames'⟩ := List.forall_mem_append.1 hnames
    exact hR.between hoffset op (denote left hleft hnames) (denote right hright hnames')

theorem denoteItems : ∀ es : List Expr, Expr.offsetsItems es ⊆ places →
    (∀ name ∈ Expr.variablesItems es, names name) →
    R (List Value) (Expr.denoteItems c es) (Expr.denoteItems c' (Expr.movedItems move es))
  | [], _, _ => by
    simp only [Expr.movedItems, Expr.denoteItems]
    exact hR.pure _
  | e :: rest, hsub, hnames => by
    simp only [Expr.movedItems, Expr.denoteItems]
    obtain ⟨he, hrest⟩ := List.append_subset.1 hsub
    obtain ⟨hnames, hnames'⟩ := List.forall_mem_append.1 hnames
    exact hR.bind (denote e he hnames) fun _ =>
      hR.bind (denoteItems rest hrest hnames') fun _ => hR.pure _

theorem denoteEntries : ∀ (es : List (Expr × Expr)) (t : Table), Expr.offsetsEntries es ⊆ places →
    (∀ name ∈ Expr.variablesEntries es, names name) →
    R Table (Expr.denoteEntries c es t) (Expr.denoteEntries c' (Expr.movedEntries move es) t)
  | [], t, _, _ => by
    simp only [Expr.movedEntries, Expr.denoteEntries]
    exact hR.pure t
  | (key, value) :: rest, t, hsub, hnames => by
    simp only [Expr.movedEntries, Expr.denoteEntries]
    obtain ⟨hentry, hrest⟩ := List.append_subset.1 hsub
    obtain ⟨hkey, hvalue⟩ := List.append_subset.1 hentry
    obtain ⟨hnames, hnames'⟩ := List.forall_mem_append.1 hnames
    obtain ⟨hnames, hnames''⟩ := List.forall_mem_append.1 hnames
    exact hR.bind (denote key hkey hnames) fun _ => hR.bind (denote value hvalue hnames'') fun _ =>
      denoteEntries rest _ hrest hnames'

end

theorem eval (e : Expr) (hsub : e.offsets ⊆ places) (hnames : ∀ name ∈ e.variables, names name) :
    R Value (e.eval c) ((e.moved move).eval c') := by
  have h := hR.denote e hsub hnames
  rwa [← walk_nil_eq, ← walk_nil_eq] at h

/-- Only a call that is a statement may yield nothing. -/
theorem bare (e : Expr) (hsub : e.offsets ⊆ places) (hnames : ∀ name ∈ e.variables, names name)
    (hcall : ∀ name args offset, e = .call name args offset → ∀ vs, R (Option Value)
      (callFunction c name offset vs) (callFunction c' name (move offset) vs)) :
    R (Option Value) ((Statement.bare e).exec c) (((Statement.bare e).moved move).exec c') := by
  cases e with
  | call name args offset =>
    simp only [Statement.moved, Expr.moved, Statement.exec, walkItems_eq]
    exact hR.bind (hR.denoteItems args (List.cons_subset.1 hsub).2 hnames)
      (hcall name args offset rfl)
  | _ => exact hR.bind (hR.eval _ hsub hnames) fun _ => hR.pure _

end Action.Composed

/-! ## Programs -/

namespace Action.Stepwise

variable (hR : Action.Stepwise c c' move places names R)

include hR

theorem eval (e : Expr) (hsub : e.offsets ⊆ places) (hnames : ∀ name ∈ e.variables, names name) :
    R Value (e.eval c) ((e.moved move).eval c') :=
  hR.composed.eval e hsub hnames

theorem bare (e : Expr) (hsub : e.offsets ⊆ places) (hnames : ∀ name ∈ e.variables, names name) :
    R (Option Value) ((Statement.bare e).exec c) (((Statement.bare e).moved move).exec c') := by
  refine hR.composed.bare e hsub hnames fun name args offset he vs => ?_
  subst he
  exact hR.callFunction (List.cons_subset.1 hsub).1 name vs

variable (hbind : ∀ {name}, names name →
  ∀ v, R Unit (Action.bindName name v) (Action.bindName name v))

include hbind

theorem exec (s : Statement) (hsub : s.offsets ⊆ places)
    (hnames : ∀ name ∈ s.variables, names name) :
    R (Option Value) (s.exec c) ((s.moved move).exec c') := by
  cases s with
  | assign name value =>
    obtain ⟨hname, hnames⟩ := List.forall_mem_cons.1 hnames
    exact hR.bind (hR.eval value hsub hnames) fun v => hR.bind (hbind hname v) fun _ => hR.pure _
  | bare e => exact hR.bare e hsub hnames

theorem execute (p : Program) (o : Option Value) (hsub : p.flatMap Statement.offsets ⊆ places)
    (hnames : ∀ name ∈ p.flatMap Statement.variables, names name) :
    R (Option Value) (Script.execute c p o) (Script.execute c' (p.moved move) o) := by
  induction p generalizing o with
  | nil => exact hR.pure o
  | cons s rest ih =>
    obtain ⟨hs, hrest⟩ := List.append_subset.1 hsub
    obtain ⟨hnames, hnames'⟩ := List.forall_mem_append.1 hnames
    exact hR.bind hR.poll fun _ => hR.bind (hR.exec hbind s hs hnames) fun v =>
      ih v hrest hnames'

end Action.Stepwise

end RemoteEval.Script
