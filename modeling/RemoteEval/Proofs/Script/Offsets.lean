import RemoteEval.Script.Grammar
import RemoteEval.Script.Position

/-!
# Where constructs stand

The constructs of an expression keep the offsets at which they stand in the source
(`Expr.offsets`). `Expr.moved` is the same expression with its constructs at other offsets. It is
one notion for what is read without places, where every offset is zero (`Expr.moved_zero`), and for
what is read further down in a longer source, where all offsets grow alike.
-/

namespace RemoteEval.Script

/-! ## Offsets -/

mutual

/-- The offsets at which the constructs of an expression are told to fail. -/
def Expr.offsets : Expr → List Nat
  | .array items => Expr.offsetsItems items
  | .map entries => Expr.offsetsEntries entries
  | .index target i offset => offset :: (target.offsets ++ i.offsets)
  | .call _ args offset => offset :: Expr.offsetsItems args
  | .unary _ operand offset => offset :: operand.offsets
  | .binary _ left right offset => offset :: (left.offsets ++ right.offsets)
  | _ => []

/-- The offsets of some expressions. -/
def Expr.offsetsItems : List Expr → List Nat
  | [] => []
  | e :: rest => e.offsets ++ Expr.offsetsItems rest

/-- The offsets of some keys and values. -/
def Expr.offsetsEntries : List (Expr × Expr) → List Nat
  | [] => []
  | (k, v) :: rest => k.offsets ++ v.offsets ++ Expr.offsetsEntries rest

end

/-- The offsets of the expression of a statement. -/
def Statement.offsets : Statement → List Nat
  | .assign _ value => value.offsets
  | .bare e => e.offsets

/-! ## Other offsets -/

variable (move : Nat → Nat)

mutual

/-- An expression with every offset moved. -/
def Expr.moved : Expr → Expr
  | .array items => .array (Expr.movedItems items)
  | .map entries => .map (Expr.movedEntries entries)
  | .index target i offset => .index target.moved i.moved (move offset)
  | .call name args offset => .call name (Expr.movedItems args) (move offset)
  | .unary op operand offset => .unary op operand.moved (move offset)
  | .binary op left right offset => .binary op left.moved right.moved (move offset)
  | e => e

/-- Expressions with every offset moved. -/
def Expr.movedItems : List Expr → List Expr
  | [] => []
  | e :: rest => e.moved :: Expr.movedItems rest

/-- Keys and values with every offset moved. -/
def Expr.movedEntries : List (Expr × Expr) → List (Expr × Expr)
  | [] => []
  | (k, v) :: rest => (k.moved, v.moved) :: Expr.movedEntries rest

end

/-- A statement with every offset moved. -/
def Statement.moved : Statement → Statement
  | .assign name value => .assign name (value.moved move)
  | .bare e => .bare (e.moved move)

/-- A program with every offset moved. -/
def Program.moved (p : Program) : Program :=
  p.map (Statement.moved move)

/-- Something found in a source, with both its ends moved. -/
def Placed.moved {α : Type} (x : Placed α) : Placed α :=
  ⟨x.item, move x.start, move x.stop⟩

/-! ## Nothing moves -/

mutual

theorem Expr.moved_id : ∀ e : Expr, e.moved id = e
  | .array items => by rw [Expr.moved, Expr.movedItems_id items]
  | .map entries => by rw [Expr.moved, Expr.movedEntries_id entries]
  | .index target i _ => by rw [Expr.moved, Expr.moved_id target, Expr.moved_id i, id]
  | .call _ args _ => by rw [Expr.moved, Expr.movedItems_id args, id]
  | .unary _ operand _ => by rw [Expr.moved, Expr.moved_id operand, id]
  | .binary _ left right _ => by rw [Expr.moved, Expr.moved_id left, Expr.moved_id right, id]
  | .null | .bool _ | .int _ | .float _ | .str _ | .char _ | .var _ => rfl

theorem Expr.movedItems_id : ∀ es : List Expr, Expr.movedItems id es = es
  | [] => rfl
  | e :: rest => by rw [Expr.movedItems, Expr.moved_id e, Expr.movedItems_id rest]

theorem Expr.movedEntries_id : ∀ es : List (Expr × Expr), Expr.movedEntries id es = es
  | [] => rfl
  | (k, v) :: rest => by
    rw [Expr.movedEntries, Expr.moved_id k, Expr.moved_id v, Expr.movedEntries_id rest]

end

theorem Statement.moved_id (s : Statement) : s.moved id = s := by
  cases s <;> rw [Statement.moved, Expr.moved_id]

theorem Program.moved_id (p : Program) : Program.moved id p = p := by
  rw [Program.moved, funext Statement.moved_id]
  exact List.map_id p

/-! ## Everything moves to the start -/

mutual

theorem Expr.moved_zero : ∀ e : Expr, e.moved (fun _ => 0) = e.unplaced
  | .array items => by rw [Expr.moved, Expr.unplaced, Expr.movedItems_zero items]
  | .map entries => by rw [Expr.moved, Expr.unplaced, Expr.movedEntries_zero entries]
  | .index target i _ => by
    rw [Expr.moved, Expr.unplaced, Expr.moved_zero target, Expr.moved_zero i]
  | .call _ args _ => by rw [Expr.moved, Expr.unplaced, Expr.movedItems_zero args]
  | .unary _ operand _ => by rw [Expr.moved, Expr.unplaced, Expr.moved_zero operand]
  | .binary _ left right _ => by
    rw [Expr.moved, Expr.unplaced, Expr.moved_zero left, Expr.moved_zero right]
  | .null | .bool _ | .int _ | .float _ | .str _ | .char _ | .var _ => rfl

theorem Expr.movedItems_zero : ∀ es : List Expr,
    Expr.movedItems (fun _ => 0) es = Expr.unplacedItems es
  | [] => rfl
  | e :: rest => by
    rw [Expr.movedItems, Expr.unplacedItems, Expr.moved_zero e, Expr.movedItems_zero rest]

theorem Expr.movedEntries_zero : ∀ es : List (Expr × Expr),
    Expr.movedEntries (fun _ => 0) es = Expr.unplacedEntries es
  | [] => rfl
  | (k, v) :: rest => by
    rw [Expr.movedEntries, Expr.unplacedEntries, Expr.moved_zero k, Expr.moved_zero v,
      Expr.movedEntries_zero rest]

end

theorem Statement.moved_zero (s : Statement) : s.moved (fun _ => 0) = s.unplaced := by
  cases s <;> rw [Statement.moved, Statement.unplaced, Expr.moved_zero]

theorem Program.moved_zero (p : Program) : p.moved (fun _ => 0) = p.unplaced := by
  rw [Program.moved, Program.unplaced, funext Statement.moved_zero]

/-! ## What does not move -/

mutual

/-- An expression that a move leaves as it is has no construct at an offset that moves. -/
theorem Expr.fixed_of_moved_eq {move : Nat → Nat} : ∀ {e : Expr}, e.moved move = e →
    ∀ offset ∈ e.offsets, move offset = offset
  | .array items, h => by
    rw [Expr.moved, Expr.array.injEq] at h
    exact Expr.fixedItems_of_moved_eq h
  | .map entries, h => by
    rw [Expr.moved, Expr.map.injEq] at h
    exact Expr.fixedEntries_of_moved_eq h
  | .index target i offset, h => by
    rw [Expr.moved, Expr.index.injEq] at h
    obtain ⟨htarget, hi, hoffset⟩ := h
    rw [Expr.offsets, List.forall_mem_cons, List.forall_mem_append]
    exact ⟨hoffset, Expr.fixed_of_moved_eq htarget, Expr.fixed_of_moved_eq hi⟩
  | .call name args offset, h => by
    rw [Expr.moved, Expr.call.injEq] at h
    obtain ⟨-, hargs, hoffset⟩ := h
    rw [Expr.offsets, List.forall_mem_cons]
    exact ⟨hoffset, Expr.fixedItems_of_moved_eq hargs⟩
  | .unary op operand offset, h => by
    rw [Expr.moved, Expr.unary.injEq] at h
    obtain ⟨-, hoperand, hoffset⟩ := h
    rw [Expr.offsets, List.forall_mem_cons]
    exact ⟨hoffset, Expr.fixed_of_moved_eq hoperand⟩
  | .binary op left right offset, h => by
    rw [Expr.moved, Expr.binary.injEq] at h
    obtain ⟨-, hleft, hright, hoffset⟩ := h
    rw [Expr.offsets, List.forall_mem_cons, List.forall_mem_append]
    exact ⟨hoffset, Expr.fixed_of_moved_eq hleft, Expr.fixed_of_moved_eq hright⟩
  | .null, _ | .bool _, _ | .int _, _ | .float _, _ | .str _, _ | .char _, _ | .var _, _ => by
    simp [Expr.offsets]

theorem Expr.fixedItems_of_moved_eq {move : Nat → Nat} : ∀ {es : List Expr},
    Expr.movedItems move es = es → ∀ offset ∈ Expr.offsetsItems es, move offset = offset
  | [], _ => by simp [Expr.offsetsItems]
  | e :: rest, h => by
    rw [Expr.movedItems, List.cons.injEq] at h
    rw [Expr.offsetsItems, List.forall_mem_append]
    exact ⟨Expr.fixed_of_moved_eq h.1, Expr.fixedItems_of_moved_eq h.2⟩

theorem Expr.fixedEntries_of_moved_eq {move : Nat → Nat} : ∀ {es : List (Expr × Expr)},
    Expr.movedEntries move es = es → ∀ offset ∈ Expr.offsetsEntries es, move offset = offset
  | [], _ => by simp [Expr.offsetsEntries]
  | (k, v) :: rest, h => by
    rw [Expr.movedEntries, List.cons.injEq, Prod.mk.injEq] at h
    obtain ⟨⟨hk, hv⟩, hrest⟩ := h
    rw [Expr.offsetsEntries, List.forall_mem_append, List.forall_mem_append]
    exact ⟨⟨Expr.fixed_of_moved_eq hk, Expr.fixed_of_moved_eq hv⟩,
      Expr.fixedEntries_of_moved_eq hrest⟩

end

theorem Statement.fixed_of_moved_eq {move : Nat → Nat} {s : Statement} (h : s.moved move = s) :
    ∀ offset ∈ s.offsets, move offset = offset := by
  cases s with
  | assign name value =>
    rw [Statement.moved, Statement.assign.injEq] at h
    exact Expr.fixed_of_moved_eq h.2
  | bare e =>
    rw [Statement.moved, Statement.bare.injEq] at h
    exact Expr.fixed_of_moved_eq h

theorem Program.fixed_of_moved_eq {move : Nat → Nat} {p : Program} (h : p.moved move = p) :
    ∀ offset ∈ p.flatMap Statement.offsets, move offset = offset := by
  induction p with
  | nil => simp
  | cons s rest ih =>
    rw [Program.moved, List.map_cons, List.cons.injEq] at h
    rw [List.flatMap_cons, List.forall_mem_append]
    exact ⟨Statement.fixed_of_moved_eq h.1, ih h.2⟩

end RemoteEval.Script
