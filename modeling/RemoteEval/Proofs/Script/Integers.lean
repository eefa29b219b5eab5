import Mathlib
import RemoteEval.Proofs.Script.Recursion

/-!
# Integer arithmetic

A calculation (`Calculation`) is an expression of integers, their negatives and the five operators
between integers. Its value is the one of the exact integers (`Calculation.exact`) as long as none
of its steps goes wrong : none divides by zero, and none leaves the integers of 64 bits. The first
step that does decides how the evaluation fails (`eval_calculation`), and nothing else comes of a
calculation. Steps are taken in the order in which recursion comes back from them
(`Calculation.inOrder`).
-/

namespace RemoteEval.Script

/-! ## Calculations -/

/-- An operator between integers whose result is an integer. -/
inductive ArithmeticOp where
  | add | sub | mul | div | rem
deriving DecidableEq

namespace ArithmeticOp

/-- The operator of an expression. -/
def toBinary : ArithmeticOp → BinaryOp
  | add => .add
  | sub => .sub
  | mul => .mul
  | div => .div
  | rem => .rem

/-- The exact result : a quotient truncates towards zero, a remainder has the sign of the
dividend. -/
def exact : ArithmeticOp → Int → Int → Int
  | add, a, b => a + b
  | sub, a, b => a - b
  | mul, a, b => a * b
  | div, a, b => a.tdiv b
  | rem, a, b => a.tmod b

/-- An operator whose right operand is a divisor. -/
def divides : ArithmeticOp → Bool
  | div | rem => true
  | _ => false

end ArithmeticOp

/-- An expression of integers. -/
inductive Calculation where
  /-- An integer. -/
  | literal (i : Int64)
  /-- A variable that holds an integer. -/
  | named (name : String)
  /-- The negative. -/
  | neg (operand : Calculation) (offset : Nat)
  /-- An operator between two calculations. -/
  | binary (op : ArithmeticOp) (left right : Calculation) (offset : Nat)

/-- A number of 64 bits. -/
def InRange (n : Int) : Prop := -2 ^ 63 ≤ n ∧ n < 2 ^ 63

instance (n : Int) : Decidable (InRange n) :=
  inferInstanceAs (Decidable (_ ∧ _))

/-- What goes wrong between two exact operands, if anything does. A remainder of the least integer
by minus one goes wrong like the quotient, though it is zero. -/
def ArithmeticOp.offence? (op : ArithmeticOp) (a b : Int) : Option Failure :=
  if op.divides ∧ b = 0 then some .divisionByZero
  else if ¬InRange (op.exact a b) ∨ op.divides ∧ a = -2 ^ 63 ∧ b = -1 then some .overflow
  else none

namespace Calculation

/-- The expression. -/
def expr : Calculation → Expr
  | literal i => .int i
  | named name => .var name
  | neg operand offset => .unary .neg operand.expr offset
  | binary op left right offset => .binary op.toBinary left.expr right.expr offset

/-- The variables that occur. -/
def names : Calculation → List String
  | literal _ => []
  | named name => [name]
  | neg operand _ => operand.names
  | binary _ left right _ => left.names ++ right.names

/-- The exact result, if a variable holds what `values` says. -/
def exact (values : String → Int64) : Calculation → Int
  | literal i => i.toInt
  | named name => (values name).toInt
  | neg operand _ => -operand.exact values
  | binary op left right _ => op.exact (left.exact values) (right.exact values)

/-- All parts of a calculation in the order in which they are evaluated, itself the last. -/
def inOrder : Calculation → List Calculation
  | literal i => [literal i]
  | named name => [named name]
  | neg operand offset => operand.inOrder ++ [neg operand offset]
  | binary op left right offset => left.inOrder ++ (right.inOrder ++ [binary op left right offset])

/-- Where the last step of a calculation goes wrong and how, if it does. -/
def offence? (values : String → Int64) : Calculation → Option (Nat × Failure)
  | literal _ | named _ => none
  | neg operand offset =>
    if InRange (-operand.exact values) then none else some (offset, .overflow)
  | binary op left right offset =>
    (op.offence? (left.exact values) (right.exact values)).map fun cause => (offset, cause)

/-- The first step that goes wrong. -/
def firstOffence? (values : String → Int64) (t : Calculation) : Option (Nat × Failure) :=
  t.inOrder.findSome? (offence? values)

end Calculation

/-! ## Integers of 64 bits -/

theorem inRange_toInt (i : Int64) : InRange i.toInt :=
  ⟨i.le_toInt, i.toInt_lt⟩

theorem toInt_ofInt {n : Int} (h : InRange n) : (Int64.ofInt n).toInt = n :=
  Int64.toInt_ofInt_of_le h.1 h.2

theorem eq_zero_iff_toInt {b : Int64} : b = 0 ↔ b.toInt = 0 :=
  ⟨fun h => h ▸ rfl, fun h => Int64.toInt_inj.1 h⟩

theorem checkedInt_of_inRange {n : Int} (h : InRange n) :
    checkedInt n = .ok (.int (Int64.ofInt n)) :=
  if_pos h

theorem checkedInt_of_not_inRange {n : Int} (h : ¬InRange n) : checkedInt n = .error .overflow :=
  if_neg h

/-- A quotient has 64 bits unless it is that of the least integer by minus one. -/
theorem inRange_tdiv_iff {a b : Int} (ha : InRange a) (hb : b ≠ 0) :
    InRange (a.tdiv b) ↔ ¬(a = -2 ^ 63 ∧ b = -1) := by
  obtain ⟨hle, hlt⟩ := ha
  by_cases hone : b = 1
  · subst hone
    rw [Int.tdiv_one]
    exact iff_of_true ⟨hle, hlt⟩ (by omega)
  by_cases hminus : b = -1
  · subst hminus
    rw [Int.tdiv_neg, Int.tdiv_one, InRange]
    omega
  · have htwo : 2 ≤ b.natAbs := by omega
    have habs : (a.tdiv b).natAbs ≤ a.natAbs / 2 := by
      rw [Int.natAbs_tdiv]
      exact Nat.div_le_div_left htwo (by decide)
    simp only [InRange]
    omega

theorem inRange_tmod {a b : Int} (hb : InRange b) (hne : b ≠ 0) : InRange (a.tmod b) := by
  obtain ⟨hle, hlt⟩ := hb
  have habs : (a.tmod b).natAbs < b.natAbs := by
    rw [Int.natAbs_tmod]
    exact Nat.mod_lt _ (by omega)
  simp only [InRange]
  omega

theorem dividedInt_zero (result : Int → Int → Int) {a b : Int64} (hb : b.toInt = 0) :
    dividedInt result a b = .error .divisionByZero := by
  rw [dividedInt, if_pos (eq_zero_iff_toInt.2 hb)]

theorem dividedInt_of_ne_zero (result : Int → Int → Int) {a b : Int64} (hb : b.toInt ≠ 0) :
    dividedInt result a b = if a.toInt = -2 ^ 63 ∧ b.toInt = -1 then .error .overflow
      else checkedInt (result a.toInt b.toInt) := by
  have hiff := inRange_tdiv_iff (inRange_toInt a) hb
  rw [dividedInt, if_neg fun h => hb (eq_zero_iff_toInt.1 h)]
  by_cases hedge : a.toInt = -2 ^ 63 ∧ b.toInt = -1
  · rw [checkedInt_of_not_inRange fun h => hiff.1 h hedge, if_pos hedge]
  · rw [checkedInt_of_inRange (hiff.2 hedge), if_neg hedge]

/-! ## Operators -/

namespace ArithmeticOp

theorem apply_toBinary (op : ArithmeticOp) (a b : Int64) :
    op.toBinary.apply (.int a) (.int b) =
      if op.divides then dividedInt op.exact a b else checkedInt (op.exact a.toInt b.toInt) := by
  cases op <;> rfl

/-- What an operator yields that has not gone wrong has 64 bits. -/
theorem inRange_exact (op : ArithmeticOp) (a b : Int64)
    (h : op.offence? a.toInt b.toInt = none) : InRange (op.exact a.toInt b.toInt) := by
  unfold offence? at h
  split at h
  · cases h
  split at h
  · cases h
  · next hnot => exact not_not.1 (not_or.1 hnot).1

/-- A quotient or remainder only goes wrong where the quotient does. -/
theorem inRange_exact_of_divides {op : ArithmeticOp} {a b : Int64} (hop : op.divides = true)
    (hb : b.toInt ≠ 0) (hedge : ¬(a.toInt = -2 ^ 63 ∧ b.toInt = -1)) :
    InRange (op.exact a.toInt b.toInt) := by
  cases op with
  | div => exact (inRange_tdiv_iff (inRange_toInt a) hb).2 hedge
  | rem => exact inRange_tmod (inRange_toInt b) hb
  | _ => cases hop

/-- What an operator between integers comes to. -/
theorem apply_eq (op : ArithmeticOp) (a b : Int64) :
    op.toBinary.apply (.int a) (.int b) = match op.offence? a.toInt b.toInt with
      | none => .ok (.int (Int64.ofInt (op.exact a.toInt b.toInt)))
      | some cause => .error cause := by
  rw [apply_toBinary, offence?]
  by_cases hop : op.divides = true
  · rw [if_pos hop]
    by_cases hb : b.toInt = 0
    · rw [dividedInt_zero _ hb, if_pos ⟨hop, hb⟩]
    have hnonzero : ¬(op.divides = true ∧ b.toInt = 0) := fun h => hb h.2
    rw [dividedInt_of_ne_zero _ hb, if_neg hnonzero]
    by_cases hedge : a.toInt = -2 ^ 63 ∧ b.toInt = -1
    · rw [if_pos hedge, if_pos (.inr ⟨hop, hedge⟩)]
    · have hrange := inRange_exact_of_divides hop hb hedge
      rw [if_neg hedge, if_neg (not_or.2 ⟨not_not.2 hrange, fun h => hedge h.2⟩),
        checkedInt_of_inRange hrange]
  · rw [if_neg hop, if_neg fun h => hop h.1]
    by_cases hrange : InRange (op.exact a.toInt b.toInt)
    · rw [checkedInt_of_inRange hrange,
        if_neg (not_or.2 ⟨not_not.2 hrange, fun h => hop h.1⟩)]
    · rw [checkedInt_of_not_inRange hrange, if_pos (.inl hrange)]

theorem eq_of_offence? {op : ArithmeticOp} {a b : Int} {cause : Failure}
    (h : op.offence? a b = some cause) : cause = .divisionByZero ∨ cause = .overflow := by
  unfold offence? at h
  split at h
  · exact .inl (Option.some.inj h).symm
  split at h
  · exact .inr (Option.some.inj h).symm
  · cases h

end ArithmeticOp

/-! ## Evaluation -/

namespace Calculation

variable {values : String → Int64} {c : Context} {r : Run}

theorem firstOffence?_neg (values : String → Int64) (t : Calculation) (offset : Nat) :
    (neg t offset).firstOffence? values =
      (t.firstOffence? values).or ((neg t offset).offence? values) := by
  rw [firstOffence?, inOrder, List.findSome?_append, List.findSome?_singleton, firstOffence?]

theorem firstOffence?_binary (values : String → Int64) (op : ArithmeticOp) (t u : Calculation)
    (offset : Nat) :
    (binary op t u offset).firstOffence? values = (t.firstOffence? values).or
      ((u.firstOffence? values).or ((binary op t u offset).offence? values)) := by
  rw [firstOffence?, inOrder, List.findSome?_append, List.findSome?_append,
    List.findSome?_singleton, firstOffence?, firstOffence?]

/-- What a calculation comes to : its exact result, or the failure of the first step that goes
wrong. -/
inductive Comes (values : String → Int64) (c : Context) (r : Run) (t : Calculation) :
    Except Fault Value × Run → Prop
  | value (h : t.firstOffence? values = none) (hrange : InRange (t.exact values)) :
      Comes values c r t (.ok (.int (Int64.ofInt (t.exact values))), r)
  | offence {offset : Nat} {cause : Failure} (h : t.firstOffence? values = some (offset, cause)) :
      Comes values c r t (.error (.failed (c.position offset) cause), r)

theorem Comes.neg {t : Calculation} {offset : Nat} {a : Action Value}
    (h : t.Comes values c r (a r)) :
    (Calculation.neg t offset).Comes values c r
      ((a >>= fun v => Action.lift c offset (PrefixOp.neg.apply v)) r) := by
  rw [Action.bind_apply]
  generalize hrun : a r = result at h
  cases h with
  | value hfirst hrange =>
    have hor := firstOffence?_neg values t offset
    rw [hfirst, Option.none_or, offence?] at hor
    simp only [PrefixOp.apply, toInt_ofInt hrange]
    by_cases hneg : InRange (-t.exact values)
    · rw [checkedInt_of_inRange hneg]
      rw [if_pos hneg] at hor
      exact .value hor hneg
    · rw [checkedInt_of_not_inRange hneg]
      rw [if_neg hneg] at hor
      exact .offence hor
  | offence hfirst =>
    refine .offence ?_
    rw [firstOffence?_neg, hfirst, Option.some_or]

/-- An operator between two calculations that have come to their exact results. -/
theorem Comes.apply (op : ArithmeticOp) (offset : Nat) {t u : Calculation}
    (ht : t.firstOffence? values = none) (hleft : InRange (t.exact values))
    (hu : u.firstOffence? values = none) (hright : InRange (u.exact values)) :
    (Calculation.binary op t u offset).Comes values c r
      (Action.lift c offset (op.toBinary.apply (.int (Int64.ofInt (t.exact values)))
        (.int (Int64.ofInt (u.exact values)))) r) := by
  have hor := firstOffence?_binary values op t u offset
  rw [ht, hu, Option.none_or, Option.none_or, offence?] at hor
  have happly := op.apply_eq (Int64.ofInt (t.exact values)) (Int64.ofInt (u.exact values))
  have hrange := op.inRange_exact (Int64.ofInt (t.exact values)) (Int64.ofInt (u.exact values))
  rw [toInt_ofInt hleft, toInt_ofInt hright] at happly hrange
  rw [happly]
  cases hoffence : op.offence? (t.exact values) (u.exact values) with
  | none =>
    rw [hoffence] at hor
    exact .value hor (hrange hoffence)
  | some cause =>
    rw [hoffence] at hor
    exact .offence hor

theorem Comes.binary {op : ArithmeticOp} {t u : Calculation} {offset : Nat} {a b : Action Value}
    (ht : t.Comes values c r (a r)) (hu : u.Comes values c r (b r)) :
    (Calculation.binary op t u offset).Comes values c r
      (op.toBinary.between c offset a b r) := by
  -- No arithmetic operator is decided by its left operand.
  have hbetween : op.toBinary.between c offset a b =
      a >>= fun x => b >>= fun y => Action.lift c offset (op.toBinary.apply x y) := by
    cases op <;> rfl
  have hor := firstOffence?_binary values op t u offset
  rw [hbetween, Action.bind_apply]
  generalize ha : a r = left at ht
  cases ht with
  | offence hfirst =>
    rw [hfirst, Option.some_or] at hor
    exact .offence hor
  | value hleft hrangeLeft =>
    dsimp only
    rw [Action.bind_apply]
    generalize hb : b r = right at hu
    cases hu with
    | offence hfirst =>
      rw [hleft, Option.none_or, hfirst, Option.some_or] at hor
      exact .offence hor
    | value hright hrangeRight => exact .apply op offset hleft hrangeLeft hright hrangeRight

/-- The parts of a calculation are evaluated in order, up to the first one that goes wrong. -/
theorem comes_denote : ∀ t : Calculation,
    (∀ name ∈ t.names, r.memory.scope.get? name = some (.int (values name))) →
      t.Comes values c r (t.expr.denote c r)
  | literal i, _ => by
    have h : (literal i).Comes values c r (.ok (.int (Int64.ofInt i.toInt)), r) :=
      .value rfl (inRange_toInt i)
    rwa [Int64.ofInt_toInt] at h
  | named name, hnames => by
    have h : (named name).Comes values c r (.ok (.int (Int64.ofInt (values name).toInt)), r) :=
      .value rfl (inRange_toInt (values name))
    rw [Int64.ofInt_toInt] at h
    rwa [expr, Expr.denote, Action.lookUp, hnames name List.mem_cons_self]
  | neg operand offset, hnames => by
    rw [expr, Expr.denote]
    exact (comes_denote operand hnames).neg
  | binary op left right offset, hnames => by
    rw [expr, Expr.denote]
    exact (comes_denote left fun name h => hnames name (List.mem_append_left _ h)).binary
      (comes_denote right fun name h => hnames name (List.mem_append_right _ h))

theorem offence?_cause {t : Calculation} {offset : Nat} {cause : Failure}
    (h : t.offence? values = some (offset, cause)) : cause = .divisionByZero ∨ cause = .overflow := by
  cases t with
  | literal | named => cases h
  | neg operand place =>
    rw [offence?] at h
    split at h <;> cases h
    exact .inr rfl
  | binary op left right place =>
    obtain ⟨cause, hcause, heq⟩ := Option.map_eq_some_iff.1 h
    cases heq
    exact op.eq_of_offence? hcause

end Calculation

/-- Integer arithmetic never wraps. A calculation comes to its exact result if none of its steps
goes wrong, and otherwise fails at the first step that does, without having done anything else. -/
theorem eval_calculation (t : Calculation) (values : String → Int64) (c : Context) (r : Run)
    (hnames : ∀ name ∈ t.names, r.memory.scope.get? name = some (.int (values name))) :
    ((∀ s ∈ t.inOrder, s.offence? values = none) ∧
      ∃ i : Int64, i.toInt = t.exact values ∧ t.expr.eval c r = (.ok (.int i), r)) ∨
    ∃ before s after offset cause, t.inOrder = before ++ s :: after ∧
      (∀ u ∈ before, u.offence? values = none) ∧ s.offence? values = some (offset, cause) ∧
      t.expr.eval c r = (.error (.failed (c.position offset) cause), r) ∧
      (Fault.failed (c.position offset) cause).kind = "RuntimeError" ∧
      (cause.message = "division by zero" ∨ cause.message = "arithmetic overflow") := by
  have hcomes := Calculation.comes_denote (c := c) t hnames
  rw [← eval_eq_denote] at hcomes
  generalize hrun : t.expr.eval c r = result at hcomes
  cases hcomes with
  | value hfirst hrange =>
    exact .inl ⟨List.findSome?_eq_none_iff.1 hfirst, _, toInt_ofInt hrange, rfl⟩
  | offence hfirst =>
    obtain ⟨before, s, after, horder, hs, hbefore⟩ := List.findSome?_eq_some_iff.1 hfirst
    refine .inr ⟨before, s, after, _, _, horder, hbefore, hs, rfl, rfl, ?_⟩
    obtain rfl | rfl := Calculation.offence?_cause hs
    · exact .inl rfl
    · exact .inr rfl

/-- The least integer has no remainder by minus one, and the division by zero behind that step is
not reached. -/
theorem eval_calculation_remainder :
    ∃ before s after offset,
      (Calculation.binary .div (.binary .rem (.named "least") (.neg (.literal 1) 8) 6)
        (.literal 0) 11).inOrder = before ++ s :: after ∧
      (∀ u ∈ before, u.offence? (fun _ => Int64.minValue) = none) ∧
      s.offence? (fun _ => Int64.minValue) = some (offset, .overflow) ∧
      (Expr.binary .div (.binary .rem (.var "least") (.unary .neg (.int 1) 8) 6) (.int 0) 11).eval
          ⟨"least % -1 / 0".toList, .quiet⟩
          (.start ⟨[("least", .int Int64.minValue)], false, 0⟩) =
        (.error (.failed ⟨1, 7⟩ .overflow),
          .start ⟨[("least", .int Int64.minValue)], false, 0⟩) := by
  have heval : (Calculation.binary .div (.binary .rem (.named "least") (.neg (.literal 1) 8) 6)
      (.literal 0) 11).expr.eval ⟨"least % -1 / 0".toList, .quiet⟩
        (.start ⟨[("least", .int Int64.minValue)], false, 0⟩) =
      (.error (.failed ⟨1, 7⟩ .overflow),
        .start ⟨[("least", .int Int64.minValue)], false, 0⟩) := by cbv
  obtain ⟨-, i, -, hok⟩ | ⟨before, s, after, offset, cause, horder, hbefore, hs, herror, -⟩ :=
    eval_calculation (.binary .div (.binary .rem (.named "least") (.neg (.literal 1) 8) 6)
      (.literal 0) 11) (fun _ => Int64.minValue) ⟨"least % -1 / 0".toList, .quiet⟩
      (.start ⟨[("least", .int Int64.minValue)], false, 0⟩)
      (fun name hname => by
        obtain rfl := List.mem_singleton.1 hname
        rfl)
  · rw [heval] at hok
    cases hok
  · obtain rfl : Failure.overflow = cause := by
      rw [heval] at herror
      injection (Prod.mk.inj herror).1 with h
      injection h
    exact ⟨before, s, after, offset, horder, hbefore, hs, heval⟩

end RemoteEval.Script
