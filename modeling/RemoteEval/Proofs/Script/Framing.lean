import Mathlib
import RemoteEval.Script.Evaluator
import RemoteEval.Proofs.Script.Steps

/-!
# What a failing statement leaves behind

Only an assignment that succeeds changes the variables, and of them only the one it names. No step
an expression is made of binds a name (`Action.KeepsScope`), so neither does an expression, whether
it comes to a value or fails, and an assignment binds its name when it has a value to bind. An
evaluation that fails does so at one of its statements, with all statements before it run and none
behind it (`exists_of_execute_error`). What it leaves of the variables is what the statements before
would have left alone, as an input of their own, too : the source of an evaluation only tells where
it fails (`Action.Alike`).
-/

namespace RemoteEval.Script

variable {α β : Type} {c c' : Context} {name : String}

/-! ## Variables -/

/-- One variable has a given value, and all others are as they were. -/
structure Scope.Assigned (name : String) (v : Value) (before after : Scope) : Prop where
  /-- The variable has the value. -/
  value : after.get? name = some v
  /-- No other variable has another value, is new or is gone. -/
  others : ∀ other, other ≠ name → after.get? other = before.get? other

theorem Scope.get?_cons (n name : String) (v : Value) (s : Scope) :
    Scope.get? name ((n, v) :: s) = if n = name then some v else s.get? name := rfl

theorem Scope.get?_set (name other : String) (v : Value) (s : Scope) :
    (s.set name v).get? other = if name = other then some v else s.get? other := by
  induction s with
  | nil => rfl
  | cons e s ih =>
    obtain ⟨n, w⟩ := e
    rw [Scope.set]
    split
    · next heq =>
      subst heq
      rw [Scope.get?_cons, Scope.get?_cons]
      split <;> rfl
    split
    · rw [Scope.get?_cons]
    · next hne _ =>
      rw [Scope.get?_cons, Scope.get?_cons, ih]
      split
      · next heq => rw [if_neg fun h => hne (heq.trans h.symm)]
      · rfl

theorem Scope.assigned_set (name : String) (v : Value) (s : Scope) :
    Scope.Assigned name v s (s.set name v) where
  value := by rw [Scope.get?_set, if_pos rfl]
  others other h := by rw [Scope.get?_set, if_neg h.symm]

/-! ## Steps that bind no name -/

/-- A step leaves the variables as they were, whether or not it succeeds. -/
def Action.KeepsScope (a : Action α) : Prop :=
  ∀ r : Run, (a r).2.memory.scope = r.memory.scope

namespace Action.KeepsScope

theorem stepwise (c : Context) (places : List Nat) :
    Action.Stepwise c c id places (fun _ => True) fun _ a _ => a.KeepsScope where
  toBasic := (Keeps.basic fun _ _ _ _ => rfl :
    Action.Basic c c id places fun _ a _ => a.Keeps fun r => r.memory.scope)
  lookUp _ := Keeps.lookUp (fun r => r.memory.scope) _
  emit _ _ := rfl

theorem poll (c : Context) : (Action.poll c.surroundings).KeepsScope :=
  (stepwise c []).poll

theorem eval (c : Context) (e : Expr) : (e.eval c).KeepsScope :=
  (stepwise c e.offsets).eval e (List.Subset.refl _) fun _ _ => trivial

theorem exec_bare (c : Context) (e : Expr) : ((Statement.bare e).exec c).KeepsScope :=
  (stepwise c e.offsets).bare e (List.Subset.refl _) fun _ _ => trivial

end Action.KeepsScope

/-! ## Statements -/

theorem exec_assign (c : Context) (name : String) (e : Expr) (r : Run) :
    (Statement.assign name e).exec c r =
      match e.eval c r with
      | (.ok v, r) =>
        (.ok none, { r with memory := { r.memory with scope := r.memory.scope.set name v } })
      | (.error f, r) => (.error f, r) := by
  rw [Statement.exec, Action.bind_apply]
  rcases e.eval c r with ⟨_ | _, _⟩ <;> rfl

/-- An assignment that succeeds gives its name the value of its expression. -/
theorem assigned_of_exec {e : Expr} {r r' : Run} {o : Option Value}
    (h : (Statement.assign name e).exec c r = (.ok o, r')) :
    o = none ∧ ∃ v, (e.eval c r).1 = .ok v ∧
      Scope.Assigned name v r.memory.scope r'.memory.scope := by
  have hscope := Action.KeepsScope.eval c e r
  rw [exec_assign] at h
  split at h
  · next v after heq =>
    cases h
    rw [heq] at hscope ⊢
    exact ⟨rfl, v, rfl, hscope ▸ Scope.assigned_set name v _⟩
  · cases h

/-- A statement that fails leaves the variables as they were. -/
theorem scope_of_exec_error {s : Statement} {r r' : Run} {f : Fault}
    (h : s.exec c r = (.error f, r')) : r'.memory.scope = r.memory.scope := by
  cases s with
  | assign name e =>
    have hscope := Action.KeepsScope.eval c e r
    rw [exec_assign] at h
    split at h
    · cases h
    · next heq =>
      cases h
      rwa [heq] at hscope
  | bare e =>
    have hscope := Action.KeepsScope.exec_bare c e r
    rwa [h] at hscope

/-- A statement in its turn : it is run unless the evaluation is asked to stop before. -/
def Statement.turn (c : Context) (s : Statement) : Action (Option Value) := do
  Action.poll c.surroundings
  s.exec c

/-- A statement that is no assignment binds no name. -/
theorem scope_of_bare_turn {e : Expr} {r r' : Run} {x : Except Fault (Option Value)}
    (h : (Statement.bare e).turn c r = (x, r')) : r'.memory.scope = r.memory.scope := by
  have hpoll : (Action.poll c.surroundings).Keeps fun r => r.memory.scope :=
    Action.KeepsScope.poll c
  have hkeeps : ((Statement.bare e).turn c).Keeps fun r => r.memory.scope :=
    hpoll.bind fun _ => Action.KeepsScope.exec_bare c e
  exact hkeeps.view_eq h

theorem scope_of_turn_error {s : Statement} {r r' : Run} {f : Fault}
    (h : s.turn c r = (.error f, r')) : r'.memory.scope = r.memory.scope := by
  have hpoll : (Action.poll c.surroundings).Keeps fun r => r.memory.scope :=
    Action.KeepsScope.poll c
  obtain hstopped | ⟨_, r₁, hgoes, hfailed⟩ := Action.of_bind_error h
  · exact hpoll.view_eq hstopped
  · exact (scope_of_exec_error hfailed).trans (hpoll.view_eq hgoes)

/-! ## Programs -/

theorem execute_cons (c : Context) (s : Statement) (rest : Program) (o : Option Value) :
    execute c (s :: rest) o = s.turn c >>= execute c rest := by
  rw [execute, Statement.turn, bind_assoc]

theorem execute_append (c : Context) (p q : Program) (o : Option Value) :
    execute c (p ++ q) o = execute c p o >>= execute c q := by
  induction p generalizing o with
  | nil => rfl
  | cons s rest ih =>
    rw [List.cons_append, execute_cons, execute_cons, bind_assoc]
    exact bind_congr ih

/-- A program fails at one of its statements, once those before it have run. -/
theorem exists_of_execute_error {p : Program} {o : Option Value} {r r' : Run} {f : Fault}
    (h : execute c p o r = (.error f, r')) :
    ∃ before s after v r₀, p = before ++ s :: after ∧ execute c before o r = (.ok v, r₀) ∧
      s.turn c r₀ = (.error f, r') := by
  induction p generalizing o r with
  | nil => cases h
  | cons s rest ih =>
    rw [execute_cons] at h
    obtain hfailed | ⟨v, after, hturn, hrest⟩ := Action.of_bind_error h
    · exact ⟨[], s, rest, o, r, rfl, rfl, hfailed⟩
    · obtain ⟨before, t, behind, u, r₀, rfl, hran, hfailed⟩ := ih hrest
      refine ⟨s :: before, t, behind, u, r₀, rfl, ?_, hfailed⟩
      rw [execute_cons, Action.bind_apply, hturn]
      exact hran

/-- What stands behind a statement that fails is not run. -/
theorem execute_of_turn_error {before : Program} {s : Statement} {o v : Option Value}
    {r r₀ r' : Run} {f : Fault} (hran : execute c before o r = (.ok v, r₀))
    (hfailed : s.turn c r₀ = (.error f, r')) (rest : Program) :
    execute c (before ++ s :: rest) o r = (.error f, r') := by
  rw [execute_append, Action.bind_apply, hran]
  dsimp only
  rw [execute_cons, Action.bind_apply, hfailed]

/-! ## Programs in another source -/

/-- Two steps come to the same, but for the fault they end with if they fail. -/
def Action.Alike (a b : Action α) : Prop :=
  ∀ r : Run, (∃ x r', a r = (.ok x, r') ∧ b r = (.ok x, r')) ∨
    ∃ f g r', a r = (.error f, r') ∧ b r = (.error g, r')

namespace Action.Alike

theorem refl (a : Action α) : a.Alike a := by
  intro r
  rcases h : a r with ⟨f | x, r'⟩
  · exact .inr ⟨f, f, r', rfl, rfl⟩
  · exact .inl ⟨x, r', rfl, rfl⟩

theorem bind {a b : Action α} {f g : α → Action β} (hab : a.Alike b)
    (hfg : ∀ x, (f x).Alike (g x)) : (a >>= f).Alike (b >>= g) := by
  intro r
  rw [bind_apply, bind_apply]
  rcases hab r with ⟨x, r', ha, hb⟩ | ⟨e, e', r', ha, hb⟩
  · rw [ha, hb]
    exact hfg x r'
  · rw [ha, hb]
    exact .inr ⟨e, e', r', rfl, rfl⟩

/-- The source of an evaluation only tells where it fails. -/
theorem stepwise (hw : c.surroundings = c'.surroundings) (places : List Nat) :
    Action.Stepwise c c' id places (fun _ => True) fun _ => Action.Alike where
  pure _ := refl _
  bind := bind
  failAt _ _ r := .inr ⟨_, _, r, rfl, rfl⟩
  undefined _ := refl _
  lookUp _ := refl _
  newSequence _ := refl _
  poll := hw ▸ refl _
  emit _ := hw ▸ refl _
  render _ := hw ▸ refl _

theorem execute (hw : c.surroundings = c'.surroundings) (p : Program) (o : Option Value) :
    (Script.execute c p o).Alike (Script.execute c' p o) := by
  have h := (stepwise hw (p.flatMap Statement.offsets)).execute (fun _ _ => refl _) p o
    (List.Subset.refl _) fun _ _ => trivial
  rwa [Program.moved_id] at h

end Action.Alike

/-! ## Inputs -/

/-- The evaluation of an input before its first statement. -/
def Run.ofInput (m : Memory) : Run := .start { m with interrupted := false }

/-- Where an input fails : the statements before have run, the one at which it fails leaves the
variables as they were, and none behind it is run. -/
structure FailsAt (w : Surroundings) (input : String) (m : Memory) (before : Program)
    (s : Statement) (f : Fault) (r : Run) : Prop where
  /-- The statements before come to their end, and the statement fails from there on. -/
  exists_before : ∃ v r₀, execute ⟨input.toList, w⟩ before none (.ofInput m) = (.ok v, r₀) ∧
    s.turn ⟨input.toList, w⟩ r₀ = (.error f, r) ∧ r.memory.scope = r₀.memory.scope
  /-- An input of the statements before alone leaves the same variables. -/
  alone : ∀ text : String, parse text.toList = .ok before →
    (∃ v, (evaluate w text m).1 = .ok (.finished v)) ∧
      (evaluate w text m).2.memory.scope = r.memory.scope
  /-- Whatever stands behind the statement, nothing else comes of it. -/
  behind : ∀ rest, execute ⟨input.toList, w⟩ (before ++ s :: rest) none (.ofInput m) = (.error f, r)

theorem evaluate_of_parse {w : Surroundings} {input : String} {m : Memory} {p : Program}
    (hparse : parse input.toList = .ok p) :
    evaluate w input m =
      match execute ⟨input.toList, w⟩ p none (.ofInput m) with
      | (.ok v, r) => (.ok (.finished v), r)
      | (.error f, r) => (.error f, r) := by
  rw [evaluate, hparse]
  rfl

theorem evaluate_eq_map {w : Surroundings} {input : String} {m : Memory} {p : Program}
    (hparse : parse input.toList = .ok p) :
    evaluate w input m = ((execute ⟨input.toList, w⟩ p none (.ofInput m)).1.map Outcome.finished,
      (execute ⟨input.toList, w⟩ p none (.ofInput m)).2) := by
  rw [evaluate_of_parse hparse]
  rcases execute ⟨input.toList, w⟩ p none (.ofInput m) with ⟨_ | _, _⟩ <;> rfl

theorem execute_of_evaluate_ok {w : Surroundings} {input : String} {m : Memory} {p : Program}
    {o : Outcome} {r : Run} (hparse : parse input.toList = .ok p)
    (h : evaluate w input m = (.ok o, r)) :
    ∃ v, o = .finished v ∧ execute ⟨input.toList, w⟩ p none (.ofInput m) = (.ok v, r) := by
  rw [evaluate_of_parse hparse] at h
  split at h
  · next v r₁ heq =>
    cases h
    exact ⟨v, rfl, heq⟩
  · cases h

theorem execute_of_evaluate_error {w : Surroundings} {input : String} {m : Memory} {p : Program}
    {f : Fault} {r : Run} (hparse : parse input.toList = .ok p)
    (h : evaluate w input m = (.error f, r)) :
    execute ⟨input.toList, w⟩ p none (.ofInput m) = (.error f, r) := by
  rw [evaluate_of_parse hparse] at h
  split at h
  · cases h
  · next f r₁ heq =>
    cases h
    exact heq

theorem FailsAt.of_turn_error {w : Surroundings} {input : String} {m : Memory} {before : Program}
    {s : Statement} {o : Option Value} {f : Fault} {r₀ r : Run}
    (hran : execute ⟨input.toList, w⟩ before none (.ofInput m) = (.ok o, r₀))
    (hfailed : s.turn ⟨input.toList, w⟩ r₀ = (.error f, r)) :
    FailsAt w input m before s f r where
  exists_before := ⟨o, r₀, hran, hfailed, scope_of_turn_error hfailed⟩
  alone text htext := by
    have halike : (execute ⟨input.toList, w⟩ before none).Alike
        (execute ⟨text.toList, w⟩ before none) := .execute (by rfl) before none
    rw [evaluate_of_parse htext]
    rcases halike (.ofInput m) with ⟨v, r', hinput, halone⟩ | ⟨g, g', r', hinput, -⟩
    · obtain ⟨-, rfl⟩ := Prod.mk.inj (hran.symm.trans hinput)
      rw [halone]
      exact ⟨⟨v, rfl⟩, (scope_of_turn_error hfailed).symm⟩
    · rw [hran] at hinput
      cases hinput
  behind := execute_of_turn_error hran hfailed

/-- Where an evaluation fails, the variables are those that the statements before would have left
alone, and nothing behind is run. No expression or call changes them, whether or not it fails, and
an assignment that succeeds changes the one it names. -/
theorem scope_changed_by_assignment :
    (∀ w input m program f r, parse input.toList = .ok program →
      evaluate w input m = (.error f, r) →
        ∃ before s after, program = before ++ s :: after ∧ FailsAt w input m before s f r) ∧
    (∀ c (e : Expr) r, (e.eval c r).2.memory.scope = r.memory.scope) ∧
    (∀ c e r, ((Statement.bare e).exec c r).2.memory.scope = r.memory.scope) ∧
    ∀ c name e r o r', (Statement.assign name e).exec c r = (.ok o, r') →
      o = none ∧ ∃ v, (e.eval c r).1 = .ok v ∧
        Scope.Assigned name v r.memory.scope r'.memory.scope := by
  refine ⟨fun w input m program f r hparse hfails => ?_, Action.KeepsScope.eval,
    Action.KeepsScope.exec_bare, fun c name e r o r' => assigned_of_exec⟩
  obtain ⟨before, s, after, v, r₀, rfl, hran, hfailed⟩ :=
    exists_of_execute_error (execute_of_evaluate_error hparse hfails)
  exact ⟨before, s, after, rfl, .of_turn_error hran hfailed⟩

/-- A division by zero between two assignments keeps the one before it and leaves its own variable
as it was. -/
theorem scope_changed_by_assignment_division :
    (∃ program f r before s after,
      parse "a = 1; b = a / 0; a = print(b)".toList = .ok program ∧
        evaluate .quiet "a = 1; b = a / 0; a = print(b)" ⟨[("b", .int 5)], true, 0⟩ =
          (.error f, r) ∧
        program = before ++ s :: after ∧
        FailsAt .quiet "a = 1; b = a / 0; a = print(b)" ⟨[("b", .int 5)], true, 0⟩ before s f r ∧
        r.memory.scope = [("a", .int 1), ("b", .int 5)]) ∧
    ∃ o r' v, (Statement.assign "a" (.binary .add (.var "a") (.int 2) 0)).exec ⟨[], .quiet⟩
        (.start ⟨[("a", .int 1), ("b", .int 5)], false, 0⟩) = (.ok o, r') ∧
      Scope.Assigned "a" v [("a", .int 1), ("b", .int 5)] r'.memory.scope := by
  obtain ⟨hfails, -, -, hassign⟩ := scope_changed_by_assignment
  refine ⟨?_, ?_⟩
  · have htokens : tokenize "a = 1; b = a / 0; a = print(b)".toList = .ok
        [⟨.name "a", 0, 1⟩, ⟨.mark .assign, 2, 3⟩, ⟨.int 1, 4, 5⟩, ⟨.mark .semicolon, 5, 6⟩,
          ⟨.name "b", 7, 8⟩, ⟨.mark .assign, 9, 10⟩, ⟨.name "a", 11, 12⟩, ⟨.mark .slash, 13, 14⟩,
          ⟨.int 0, 15, 16⟩, ⟨.mark .semicolon, 16, 17⟩, ⟨.name "a", 18, 19⟩,
          ⟨.mark .assign, 20, 21⟩, ⟨.name "print", 22, 27⟩, ⟨.mark .openParen, 27, 28⟩,
          ⟨.name "b", 28, 29⟩, ⟨.mark .closeParen, 29, 30⟩] := by cbv
    have hparse : parse "a = 1; b = a / 0; a = print(b)".toList =
        .ok [.assign "a" (.int 1), .assign "b" (.binary .div (.var "a") (.int 0) 13),
          .assign "a" (.call "print" [.var "b"] 22)] := by
      rw [parse, htokens]
      rfl
    have heval : evaluate .quiet "a = 1; b = a / 0; a = print(b)" ⟨[("b", .int 5)], true, 0⟩ =
        (.error (.failed ⟨1, 14⟩ .divisionByZero),
          ⟨⟨[("a", .int 1), ("b", .int 5)], false, 0⟩, [], 2⟩) := by
      rw [evaluate_of_parse hparse]
      cbv
    obtain ⟨before, s, after, hprogram, hat⟩ := hfails _ _ _ _ _ _ hparse heval
    exact ⟨_, _, _, before, s, after, hparse, heval, hprogram, hat, rfl⟩
  · have hexec : (Statement.assign "a" (.binary .add (.var "a") (.int 2) 0)).exec ⟨[], .quiet⟩
        (.start ⟨[("a", .int 1), ("b", .int 5)], false, 0⟩) =
          (.ok none, .start ⟨[("a", .int 3), ("b", .int 5)], false, 0⟩) := by cbv
    obtain ⟨-, v, -, hassigned⟩ := hassign _ _ _ _ _ _ hexec
    exact ⟨_, _, v, hexec, hassigned⟩

end RemoteEval.Script
