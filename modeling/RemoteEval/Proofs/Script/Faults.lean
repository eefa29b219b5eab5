import RemoteEval.Script.Evaluator
import RemoteEval.Proofs.Script.Steps

/-!
# What ends an evaluation

An input that is run ends with a request to stop, with a name that stands for nothing, or with a
failure of one of its constructs, told at the position of that construct (`Fault.Arises`). No step
of an evaluation ends in another way (`Action.FailsIn`), so no program does (`FailsIn.execute`).
That an input is malformed is only found while it is read, before anything is run, and so is that it
is incomplete. So an evaluator that only reads an input and one that evaluates it agree on what the
input is, whatever each of them keeps (`evaluate_agrees`).
-/

namespace RemoteEval.Script

/-! ## Steps of an evaluation -/

/-- What ends a run whose constructs stand at `places`. -/
inductive Fault.Arises (c : Context) (places : List Nat) : Fault → Prop
  | interrupted : Arises c places .interrupted
  | undefined (name : String) : Arises c places (.undefined name)
  | failed {offset : Nat} (h : offset ∈ places) (cause : Failure) :
      Arises c places (.failed (c.position offset) cause)

theorem Fault.Arises.ne_malformed {c : Context} {places : List Nat} {f : Fault}
    (h : f.Arises c places) (position : Position) (cause : Malformation) :
    f ≠ .malformed position cause := by
  cases h <;> nofun

/-- A step that fails does so as a construct at one of `places` may. -/
def Action.FailsIn {α : Type} (c : Context) (places : List Nat) (a : Action α) : Prop :=
  ∀ (r : Run) (f : Fault), (a r).1 = .error f → f.Arises c places

namespace Action.FailsIn

variable {α β : Type} {c : Context} {places : List Nat} {offset : Nat}

/-- A step that never fails. -/
theorem of_ok {a : Action α} (h : ∀ r, ∃ x, (a r).1 = .ok x) : a.FailsIn c places := by
  intro r f hf
  obtain ⟨x, hx⟩ := h r
  rw [hx] at hf
  cases hf

theorem pure (x : α) : Action.FailsIn c places (pure x) :=
  of_ok fun _ => ⟨x, rfl⟩

theorem fail {f : Fault} (hf : f.Arises c places) :
    Action.FailsIn (α := α) c places (Action.fail f) := by
  rintro r g hg
  cases hg
  exact hf

theorem bind {a : Action α} {f : α → Action β} (ha : a.FailsIn c places)
    (hf : ∀ x, (f x).FailsIn c places) : (a >>= f).FailsIn c places := by
  intro r g hg
  rw [bind_apply] at hg
  split at hg
  · exact hf _ _ g hg
  · next heq =>
    cases hg
    exact ha r g (by rw [heq])

theorem poll (w : Surroundings) : Action.FailsIn c places (Action.poll w) := by
  intro r f hf
  unfold Action.poll at hf
  split at hf <;> cases hf
  exact .interrupted

theorem lookUp (name : String) : Action.FailsIn c places (Action.lookUp name) := by
  intro r f hf
  unfold Action.lookUp at hf
  split at hf <;> cases hf
  exact .undefined name

theorem render (w : Surroundings) (v : Value) : Action.FailsIn c places (Action.render w v) := by
  intro r f hf
  unfold Action.render at hf
  dsimp only at hf
  split at hf <;> cases hf
  exact .interrupted

/-- Every step an expression is made of fails as one of its constructs may. -/
theorem stepwise (c : Context) (places : List Nat) :
    Action.Stepwise c c id places (fun _ => True) fun _ a _ => a.FailsIn c places where
  pure := pure
  bind := bind
  failAt h e := fail (.failed h e)
  undefined name := fail (.undefined name)
  lookUp _ := lookUp _
  newSequence _ := of_ok fun _ => ⟨_, rfl⟩
  poll := poll _
  emit _ := of_ok fun _ => ⟨_, rfl⟩
  render := render _

/-- A program ends with a request to stop, with a name that stands for nothing, or with a failure
of one of its constructs. -/
theorem execute (p : Program) (o : Option Value) (hsub : p.flatMap Statement.offsets ⊆ places) :
    (Script.execute c p o).FailsIn c places :=
  (stepwise c places).execute (fun _ _ => of_ok fun _ => ⟨_, rfl⟩) p o hsub fun _ _ => trivial

end Action.FailsIn

/-! ## Inputs -/

/-- An input is run : its statements are executed once the flag was cleared, and they come to
`result`. -/
def Ran (w : Surroundings) (input : String) (m : Memory) (result : Except Fault Outcome × Run) :
    Prop :=
  ∃ program, parse input.toList = .ok program ∧
    execute ⟨input.toList, w⟩ program none (.start { m with interrupted := false }) =
      (result.1.map Outcome.value, result.2)

/-- What an evaluator that keeps `shadow` says of an input is what comes of it where it is evaluated
by one that keeps `host`. -/
structure Agrees (w : Surroundings) (input : String) (shadow host : Memory)
    (verdict : Except Fault (Option String) × Memory) (result : Except Fault Outcome × Run) :
    Prop where
  /-- Nothing changes where an input is only read. -/
  unchanged : verdict.2 = shadow
  /-- More input is needed on one side if and only if it is on the other. -/
  incomplete : ∀ t, verdict.1 = .ok (some t) ↔ ∃ o, result.1 = .ok o ∧ o.continuation = some t
  /-- What waits for more input is all of it, and nothing was run. -/
  kept : ∀ t, verdict.1 = .ok (some t) → t = input ∧ t ≠ "" ∧ result.2 = .start host
  /-- What is malformed on one side is malformed in the same way on the other. -/
  malformed : ∀ f, verdict.1 = .error f ↔
    (∃ position cause, f = .malformed position cause) ∧ result.1 = .error f
  /-- Nothing of what is malformed was run. -/
  rejected : ∀ f, verdict.1 = .error f → result.2 = .start host
  /-- Anything else is run. -/
  complete : verdict.1 = .ok none ↔ Ran w input host result
  /-- What is run is then neither incomplete nor malformed. -/
  ran : verdict.1 = .ok none → (∀ o, result.1 = .ok o → o.continuation = none) ∧
    ∀ position cause, result.1 ≠ .error (.malformed position cause)

theorem parse_nil : parse [] = .ok [] := rfl

section Verdicts

variable {w : Surroundings} {input : String} {shadow host : Memory}

/-- What is not read as a program is not run. -/
theorem not_ran {refusal : Refusal} (hparse : parse input.toList = .error refusal)
    (result : Except Fault Outcome × Run) : ¬Ran w input host result := by
  rintro ⟨program, hok, -⟩
  rw [hparse] at hok
  cases hok

theorem Agrees.of_incomplete (hparse : parse input.toList = .error .incomplete) :
    Agrees w input shadow host (.ok (some input), shadow)
      (.ok (.unfinished input), .start host) where
  unchanged := rfl
  incomplete t := by simp [Outcome.unfinished]
  kept t ht := by
    obtain rfl : input = t := by simpa using ht
    refine ⟨rfl, ?_, rfl⟩
    rintro rfl
    rw [String.toList_empty, parse_nil] at hparse
    cases hparse
  malformed f := by simp
  rejected f hf := nomatch hf
  complete := iff_of_false (by simp) (not_ran hparse _)
  ran h := by simp at h

theorem Agrees.of_malformed {position : Position} {cause : Malformation}
    (hparse : parse input.toList = .error (.malformed position cause)) :
    Agrees w input shadow host (.error (.malformed position cause), shadow)
      (.error (.malformed position cause), .start host) where
  unchanged := rfl
  incomplete t := by simp
  kept t ht := nomatch ht
  malformed f := by
    constructor
    · rintro ⟨⟩
      exact ⟨⟨position, cause, rfl⟩, rfl⟩
    · rintro ⟨-, ⟨⟩⟩
      rfl
  rejected f _ := rfl
  complete := iff_of_false (by simp) (not_ran hparse _)
  ran h := nomatch h

/-- A program that is run neither waits for more nor turns out to be malformed. -/
theorem Agrees.of_ran {result : Except Fault Outcome × Run} (hran : Ran w input host result)
    (hcontinuation : ∀ o, result.1 = .ok o → o.continuation = none) :
    Agrees w input shadow host (.ok none, shadow) result := by
  have hne (position : Position) (cause : Malformation) :
      result.1 ≠ .error (.malformed position cause) := by
    intro h
    obtain ⟨program, -, hrun⟩ := hran
    have hfails := Action.FailsIn.execute (c := ⟨input.toList, w⟩) program none
      (List.Subset.refl _) (.start { host with interrupted := false })
    rw [hrun, h] at hfails
    exact (hfails _ rfl).ne_malformed position cause rfl
  exact
    { unchanged := rfl
      incomplete := fun t => by
        refine iff_of_false (by simp) ?_
        rintro ⟨o, ho, hsome⟩
        rw [hcontinuation o ho] at hsome
        cases hsome
      kept := fun t ht => by simp at ht
      malformed := fun f => by
        refine iff_of_false (by simp) ?_
        rintro ⟨⟨position, cause, rfl⟩, h⟩
        exact hne position cause h
      rejected := fun f hf => nomatch hf
      complete := iff_of_true rfl hran
      ran := fun _ => ⟨hcontinuation, hne⟩ }

end Verdicts

/-- Whether an input is complete, incomplete or malformed does not depend on what an evaluator
keeps, nor, if it is complete, on what the program does. -/
theorem evaluate_agrees (w : Surroundings) (input : String) (shadow host : Memory) :
    Agrees w input shadow host (Evaluator.script.continuation? input shadow)
      (Evaluator.script.evaluate w input host) := by
  simp only [Evaluator.script, continuation?, evaluate]
  cases hparse : parse input.toList with
  | error refusal =>
    cases refusal with
    | incomplete => exact .of_incomplete hparse
    | malformed position cause => exact .of_malformed hparse
  | ok program =>
    cases hrun : execute ⟨input.toList, w⟩ program none
        (.start { host with interrupted := false }) with
    | mk value r =>
      simp only [hrun]
      cases value with
      | ok v =>
        refine .of_ran ⟨program, hparse, hrun⟩ fun o ho => ?_
        obtain rfl : Outcome.finished v = o := Except.ok.inj ho
        rfl
      | error f => exact .of_ran ⟨program, hparse, hrun⟩ nofun

end RemoteEval.Script
