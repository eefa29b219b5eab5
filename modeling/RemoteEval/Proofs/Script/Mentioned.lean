import RemoteEval.Proofs.Script.Framing

/-!
# What an evaluation depends on

An input reads and binds no variables but those it mentions. From two states that agree on some
variables, a step that looks up no other comes to the same, and leaves two states that agree on them
(`Action.Local`). This is what a whole program does whose variables are among them
(`Local.execute`), and a variable it does not mention is as it was (`keepsVariable_execute`). So two
evaluators that agree on what an input mentions cannot be told apart by it, whatever else they keep
(`evaluate_mentioned`).
-/

namespace RemoteEval.Script

variable {α β : Type} {c : Context} {names : String → Prop}

/-! ## Two states -/

/-- Two evaluations have come equally far, and agree on the variables `names`. -/
structure Run.AgreeOn (names : String → Prop) (r r' : Run) : Prop where
  scope : ∀ name, names name → r.memory.scope.get? name = r'.memory.scope.get? name
  interrupted : r.memory.interrupted = r'.memory.interrupted
  nextSequence : r.memory.nextSequence = r'.memory.nextSequence
  messages : r.messages = r'.messages
  polls : r.polls = r'.polls

/-- A step comes to the same from every two states that agree on `names`, and they agree on them
afterwards, whether or not it succeeds. -/
def Action.Local (names : String → Prop) (a : Action α) : Prop :=
  ∀ r r' : Run, r.AgreeOn names r' → (a r).1 = (a r').1 ∧ (a r).2.AgreeOn names (a r').2

namespace Action.Local

theorem pure (x : α) : Action.Local names (pure x) :=
  fun _ _ h => ⟨rfl, h⟩

theorem fail (f : Fault) : Action.Local (α := α) names (Action.fail f) :=
  fun _ _ h => ⟨rfl, h⟩

theorem bind {a : Action α} {f : α → Action β} (ha : a.Local names)
    (hf : ∀ x, (f x).Local names) : (a >>= f).Local names := by
  intro r r' h
  obtain ⟨hresult, hagree⟩ := ha r r' h
  rw [bind_apply, bind_apply]
  rcases hr : a r with ⟨e | x, r₁⟩ <;> rcases hr' : a r' with ⟨y, r₁'⟩ <;>
    rw [hr, hr'] at hresult hagree <;> cases hresult
  · exact ⟨rfl, hagree⟩
  · exact hf x r₁ r₁' hagree

theorem lookUp {name : String} (hname : names name) :
    (Action.lookUp name).Local names := by
  intro r r' h
  unfold Action.lookUp
  rw [h.scope name hname]
  split
  · exact ⟨rfl, h⟩
  · exact ⟨rfl, h⟩

theorem newSequence (source : Source Value) : (Action.newSequence source).Local names := by
  intro r r' h
  unfold Action.newSequence
  rw [h.nextSequence]
  exact ⟨rfl, { h with nextSequence := rfl }⟩

theorem poll (w : Surroundings) : (Action.poll w).Local names := by
  intro r r' h
  unfold Action.poll
  rw [h.interrupted, h.polls]
  split
  · exact ⟨rfl, { h with interrupted := rfl, polls := rfl }⟩
  · exact ⟨rfl, { h with polls := rfl }⟩

theorem emit (w : Surroundings) (message : String) : (Action.emit w message).Local names := by
  intro r r' h
  unfold Action.emit
  rw [h.interrupted, h.messages]
  exact ⟨rfl, { h with interrupted := rfl, messages := rfl }⟩

theorem render (w : Surroundings) (v : Value) : (Action.render w v).Local names := by
  intro r r' h
  simp only [Action.render, h.interrupted, h.polls]
  split
  · exact ⟨rfl, { h with polls := rfl }⟩
  · exact ⟨rfl, { h with interrupted := rfl, polls := rfl }⟩

theorem bindName (name : String) (v : Value) : (Action.bindName name v).Local names := by
  intro r r' h
  refine ⟨rfl, { h with scope := fun other hother => ?_ }⟩
  simp only [Action.bindName, Scope.get?_set, h.scope other hother]

theorem stepwise (c : Context) (places : List Nat) :
    Action.Stepwise c c id places names fun _ a _ => a.Local names where
  pure := pure
  bind := bind
  failAt _ _ := fail _
  undefined _ := fail _
  lookUp := lookUp
  newSequence := newSequence
  poll := poll _
  emit := emit _
  render := render _

/-- A program comes to the same from two states that agree on its variables. -/
theorem execute (p : Program) (o : Option Value)
    (hnames : ∀ name ∈ p.flatMap Statement.variables, names name) :
    (Script.execute c p o).Local names :=
  (stepwise c (p.flatMap Statement.offsets)).execute (fun _ => bindName _) p o
    (List.Subset.refl _) hnames

end Action.Local

/-! ## Variables that are not mentioned -/

/-- A program leaves a variable as it was that is none of its own. -/
theorem keepsVariable_execute (p : Program) (o : Option Value) {other : String}
    (hother : other ∉ p.flatMap Statement.variables) :
    (execute c p o).Keeps fun r => r.memory.scope.get? other := by
  have hbasic : Action.Basic c c id (p.flatMap Statement.offsets) fun _ a _ =>
      a.Keeps fun r => r.memory.scope.get? other :=
    Action.Keeps.basic fun _ _ _ _ => rfl
  have hsteps : Action.Stepwise c c id (p.flatMap Statement.offsets) (· ≠ other) fun _ a _ =>
      a.Keeps fun r => r.memory.scope.get? other :=
    { toBasic := hbasic
      lookUp := fun _ => Action.Keeps.lookUp _ _
      emit := fun _ _ => rfl }
  have hbind {name : String} (hname : name ≠ other) (v : Value) :
      (Action.bindName name v).Keeps fun r => r.memory.scope.get? other := by
    intro r
    simp only [Action.bindName, Scope.get?_set, if_neg hname]
  exact hsteps.execute hbind p o (List.Subset.refl _) fun name hname h => hother (h ▸ hname)

/-! ## Inputs -/

/-- What one input comes to on two evaluators that cannot be told apart by it. -/
structure SameCourse (input : String) (m m' : Memory) (first second : Except Fault Outcome × Run) :
    Prop where
  /-- The same result, or the same fault. -/
  result : first.1 = second.1
  /-- The same messages, in the same order. -/
  messages : first.2.messages = second.2.messages
  /-- What the input mentions has the same value on both afterwards. -/
  agree : ∀ name ∈ mentioned input,
    first.2.memory.scope.get? name = second.2.memory.scope.get? name
  /-- What it does not mention is on each as it was before. -/
  others : ∀ name ∉ mentioned input,
    first.2.memory.scope.get? name = m.scope.get? name ∧
      second.2.memory.scope.get? name = m'.scope.get? name
  /-- The next new sequence is the same one on both. -/
  nextSequence : first.2.memory.nextSequence = second.2.memory.nextSequence

/-- An input that is not run leaves everything as it was, and its refusal is the same everywhere. -/
theorem SameCourse.of_refused {w : Surroundings} {input : String} {m m' : Memory}
    {refusal : Refusal} (hparse : parse input.toList = .error refusal)
    (hscope : ∀ name ∈ mentioned input, m.scope.get? name = m'.scope.get? name)
    (hnext : m.nextSequence = m'.nextSequence) :
    SameCourse input m m' (evaluate w input m) (evaluate w input m') := by
  simp only [evaluate, hparse]
  cases refusal <;> exact ⟨rfl, rfl, hscope, fun _ _ => ⟨rfl, rfl⟩, hnext⟩

/-- An input comes to the same on two evaluators that agree on the variables it mentions : it
yields the same result or the same fault and emits the same messages, they agree on these variables
afterwards, and all others are as they were. -/
theorem evaluate_mentioned (w : Surroundings) (input : String) (m m' : Memory)
    (hscope : ∀ name ∈ mentioned input, m.scope.get? name = m'.scope.get? name)
    (hnext : m.nextSequence = m'.nextSequence) :
    SameCourse input m m' (evaluate w input m) (evaluate w input m') := by
  cases hparse : parse input.toList with
  | error refusal => exact .of_refused hparse hscope hnext
  | ok p =>
    have hmentioned : mentioned input = p.flatMap Statement.variables := by
      rw [mentioned, hparse]
    have hstart : (Run.ofInput m).AgreeOn (· ∈ mentioned input) (.ofInput m') :=
      ⟨hscope, rfl, hnext, rfl, rfl⟩
    have hlocal : (execute ⟨input.toList, w⟩ p none).Local (· ∈ mentioned input) :=
      .execute p none fun name hname => hmentioned ▸ hname
    obtain ⟨hresult, hagree⟩ := hlocal _ _ hstart
    rw [evaluate_eq_map hparse, evaluate_eq_map hparse]
    exact
      { result := congrArg (Except.map Outcome.finished) hresult
        messages := hagree.messages
        agree := hagree.scope
        others := fun name hname =>
          have hkeeps := keepsVariable_execute (c := ⟨input.toList, w⟩) p none (hmentioned ▸ hname)
          ⟨hkeeps (.ofInput m), hkeeps (.ofInput m')⟩
        nextSequence := hagree.nextSequence }

/-- Neither the flag nor a variable that is not mentioned shows in what an input comes to, nor does
the input change that variable. -/
theorem evaluate_mentioned_range :
    mentioned "x = x + 1; print(x); range(0, x)" = ["x", "x", "x", "x"] ∧
      SameCourse "x = x + 1; print(x); range(0, x)" ⟨[("x", .int 1), ("y", .int 7)], true, 3⟩
        ⟨[("a", .null), ("x", .int 1)], false, 3⟩
        (evaluate .quiet "x = x + 1; print(x); range(0, x)"
          ⟨[("x", .int 1), ("y", .int 7)], true, 3⟩)
        (evaluate .quiet "x = x + 1; print(x); range(0, x)"
          ⟨[("a", .null), ("x", .int 1)], false, 3⟩) ∧
      evaluate .quiet "x = x + 1; print(x); range(0, x)" ⟨[("a", .null), ("x", .int 1)], false, 3⟩ =
        (.ok (.finished (some (.seq 3 (.range 0 2)))),
          ⟨⟨[("a", .null), ("x", .int 2)], false, 4⟩, ["2"], 3⟩) := by
  have htokens : tokenize "x = x + 1; print(x); range(0, x)".toList = .ok
      [⟨.name "x", 0, 1⟩, ⟨.mark .assign, 2, 3⟩, ⟨.name "x", 4, 5⟩, ⟨.mark .plus, 6, 7⟩,
        ⟨.int 1, 8, 9⟩, ⟨.mark .semicolon, 9, 10⟩, ⟨.name "print", 11, 16⟩,
        ⟨.mark .openParen, 16, 17⟩, ⟨.name "x", 17, 18⟩, ⟨.mark .closeParen, 18, 19⟩,
        ⟨.mark .semicolon, 19, 20⟩, ⟨.name "range", 21, 26⟩, ⟨.mark .openParen, 26, 27⟩,
        ⟨.int 0, 27, 28⟩, ⟨.mark .comma, 28, 29⟩, ⟨.name "x", 30, 31⟩,
        ⟨.mark .closeParen, 31, 32⟩] := by cbv
  have hparse : parse "x = x + 1; print(x); range(0, x)".toList =
      .ok [.assign "x" (.binary .add (.var "x") (.int 1) 6), .bare (.call "print" [.var "x"] 11),
        .bare (.call "range" [.int 0, .var "x"] 21)] := by
    rw [parse, htokens]
    rfl
  have hmentioned : mentioned "x = x + 1; print(x); range(0, x)" = ["x", "x", "x", "x"] := by
    rw [mentioned, hparse]
    rfl
  refine ⟨hmentioned, evaluate_mentioned .quiet _ _ _ ?_ rfl, ?_⟩
  · rw [hmentioned]
    intro name hname
    obtain rfl : name = "x" := by simpa using hname
    rfl
  · rw [evaluate_of_parse hparse]
    cbv

end RemoteEval.Script
