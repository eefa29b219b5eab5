import RemoteEval.Proofs.Parser.Sequence
import RemoteEval.Proofs.Script.Interrupts

/-!
# One input or two

Two inputs with a separator on a line of its own between them are one program (`parse_joined`), and
come to the same as the one evaluated after the other, if nobody asks them to stop
(`evaluate_joined`). An evaluation does not look back at the messages that were emitted or at how
often it looked whether to stop, and its source only tells where it fails. So a step does in the
middle of the longer input what it does in its own (`Action.Follows`), and fails as many lines
further down as stand before.
-/

namespace RemoteEval.Script

variable {α β : Type} {c c' : Context} {move : Nat → Nat} {places : List Nat} {lines : Nat}
  {earlier : List String}

/-- The fault of what stands some lines further down. -/
def Fault.below (lines : Nat) : Fault → Fault
  | malformed position cause => malformed (position.below lines) cause
  | failed position cause => failed (position.below lines) cause
  | f => f

theorem Fault.below_zero (f : Fault) : f.below 0 = f := by
  cases f <;> rfl

/-! ## Steps further down -/

/-- An evaluation keeps the same as another one, and has emitted some messages before. -/
structure Run.Trails (earlier : List String) (r r' : Run) : Prop where
  memory : r'.memory = r.memory
  messages : r'.messages = earlier ++ r.messages

/-- A step comes to the same as another one behind some messages, or fails further down. -/
def Action.Follows (earlier : List String) (lines : Nat) (a b : Action α) : Prop :=
  ∀ r r' : Run, r.Trails earlier r' →
    (b r').1 = (a r).1.mapError (Fault.below lines) ∧ (a r).2.Trails earlier (b r').2

namespace Action.Follows

theorem pure (x : α) : Action.Follows earlier lines (pure x) (pure x) :=
  fun _ _ h => ⟨rfl, h⟩

theorem bind {a b : Action α} {f g : α → Action β} (hab : a.Follows earlier lines b)
    (hfg : ∀ x, (f x).Follows earlier lines (g x)) :
    (a >>= f).Follows earlier lines (b >>= g) := by
  intro r r' h
  obtain ⟨hresult, htrails⟩ := hab r r' h
  rw [bind_apply, bind_apply]
  rcases ha : a r with ⟨e | x, r₁⟩ <;> rcases hb : b r' with ⟨y, r₁'⟩ <;>
    rw [ha, hb] at hresult htrails <;> cases hresult
  · exact ⟨rfl, htrails⟩
  · exact hfg x r₁ r₁' htrails

theorem fail {f g : Fault} (h : f.below lines = g) :
    Action.Follows (α := α) earlier lines (Action.fail f) (Action.fail g) :=
  fun _ _ hr => ⟨congrArg Except.error h.symm, hr⟩

theorem lookUp (name : String) :
    Action.Follows earlier lines (Action.lookUp name) (Action.lookUp name) := by
  intro r r' h
  unfold Action.lookUp
  rw [h.memory]
  split
  · exact ⟨rfl, h⟩
  · exact ⟨rfl, h⟩

theorem newSequence (source : Source Value) :
    Action.Follows earlier lines (Action.newSequence source) (Action.newSequence source) := by
  intro r r' h
  unfold Action.newSequence
  rw [h.memory]
  exact ⟨rfl, rfl, h.messages⟩

theorem poll : Action.Follows earlier lines (Action.poll .quiet) (Action.poll .quiet) := by
  intro r r' h
  simp only [Action.poll, Surroundings.quiet, h.memory, Bool.or_false]
  split <;> exact ⟨rfl, rfl, h.messages⟩

theorem emit (message : String) :
    Action.Follows earlier lines (Action.emit .quiet message) (Action.emit .quiet message) := by
  intro r r' h
  simp only [Action.emit, Surroundings.quiet, h.memory, h.messages, List.append_assoc]
  exact ⟨rfl, rfl, rfl⟩

theorem render (v : Value) :
    Action.Follows earlier lines (Action.render .quiet v) (Action.render .quiet v) := by
  intro r r' h
  simp only [Action.render, Surroundings.quiet, h.memory, Bool.or_false]
  split <;> exact ⟨rfl, rfl, h.messages⟩

theorem bindName (name : String) (v : Value) :
    Action.Follows earlier lines (Action.bindName name v) (Action.bindName name v) := by
  intro r r' h
  unfold Action.bindName
  rw [h.memory]
  exact ⟨rfl, rfl, h.messages⟩

/-- Constructs that stand some lines further down do what they do in their own source. -/
theorem stepwise (hc : c.surroundings = .quiet) (hc' : c'.surroundings = .quiet)
    (hplaces : ∀ offset ∈ places, c'.position (move offset) = (c.position offset).below lines) :
    Action.Stepwise c c' move places (fun _ => True) fun _ => Action.Follows earlier lines where
  pure := pure
  bind := bind
  failAt h e := fail (by rw [hplaces _ h]; rfl)
  undefined name := fail rfl
  lookUp _ := lookUp _
  newSequence := newSequence
  poll := by rw [hc, hc']; exact poll
  emit message := by rw [hc, hc']; exact emit message
  render v := by rw [hc, hc']; exact render v

end Action.Follows

/-! ## Programs further down -/

section Programs

variable {us : List Char} {p : Program}

/-- The first of two programs comes to what it comes to alone. -/
theorem follows_first (hp : parse us = .ok p) (vs : List Char) (o : Option Value) :
    Action.Follows [] 0 (execute ⟨us, .quiet⟩ p o) (execute ⟨joined us vs, .quiet⟩ p o) := by
  have hplaces : ∀ offset ∈ p.flatMap Statement.offsets,
      Context.position ⟨joined us vs, .quiet⟩ (id offset) =
        (Context.position ⟨us, .quiet⟩ offset).below 0 := fun offset hoffset =>
    Position.locate_append_of_le us _ (offset_le_of_parse hp offset hoffset)
  have hsteps : Action.Stepwise ⟨us, .quiet⟩ ⟨joined us vs, .quiet⟩ id _
      (fun _ => True) fun _ => Action.Follows [] 0 :=
    Action.Follows.stepwise rfl rfl hplaces
  have h := hsteps.execute (fun _ => Action.Follows.bindName _) p o (List.Subset.refl _)
    fun _ _ => trivial
  rwa [Program.moved_id] at h

/-- The second of two programs comes to what it comes to alone, behind the messages of the first
one. -/
theorem follows_second (us vs : List Char) (earlier : List String) (q : Program)
    (o : Option Value) :
    Action.Follows earlier (us.count '\n' + 2) (execute ⟨vs, .quiet⟩ q o)
      (execute ⟨joined us vs, .quiet⟩ (q.moved (· + (width us + 3))) o) := by
  have hplaces : ∀ offset ∈ q.flatMap Statement.offsets,
      Context.position ⟨joined us vs, .quiet⟩ (offset + (width us + 3)) =
        (Context.position ⟨vs, .quiet⟩ offset).below (us.count '\n' + 2) := by
    intro offset _
    have hbehind := Position.locate_behind (us ++ ['\n', ';']) vs offset
    have hjoined : us ++ ['\n', ';'] ++ '\n' :: vs = joined us vs := by simp [joined]
    have hwidth : width (us ++ ['\n', ';']) = width us + 2 := width_append _ _
    have hcount : (us ++ ['\n', ';']).count '\n' = us.count '\n' + 1 := List.count_append
    rwa [hjoined, hwidth, hcount] at hbehind
  exact (Action.Follows.stepwise rfl rfl hplaces).execute
    (fun _ => Action.Follows.bindName _) q o (List.Subset.refl _) fun _ _ => trivial

/-- The result before a program shows only if there is no statement in it. -/
theorem execute_result (c : Context) (q : Program) (o : Option Value) (r : Run) :
    execute c q o r =
      ((execute c q none r).1.map fun v => if q.isEmpty then o else v, (execute c q none r).2) := by
  cases q with
  | nil => rfl
  | cons s rest =>
    change execute c (s :: rest) none r = _
    rcases execute c (s :: rest) none r with ⟨_ | _, _⟩ <;> rfl

end Programs

/-! ## Inputs -/

/-- What an input comes to that holds two programs, of which the second is `q` and stands `lines`
lines below the first. -/
structure OneAfterOther (lines : Nat) (q : Program)
    (first second both : Except Fault Outcome × Run) : Prop where
  /-- It fails where the first program does. -/
  first_failed : ∀ f, first.1 = .error f →
    both.1 = .error f ∧ both.2.memory = first.2.memory ∧ both.2.messages = first.2.messages
  /-- It fails where the second program does, further down. -/
  second_failed : ∀ o f, first.1 = .ok o → second.1 = .error f → both.1 = .error (f.below lines)
  /-- It comes to what the second program comes to, or to what the first does if there is no
  statement in the second. -/
  succeeded : ∀ o o', first.1 = .ok o → second.1 = .ok o' →
    both.1 = .ok (if q.isEmpty then o else o')
  /-- It keeps what both have kept. -/
  memory : ∀ o, first.1 = .ok o → both.2.memory = second.2.memory
  /-- It emits what both emit. -/
  messages : ∀ o, first.1 = .ok o → both.2.messages = first.2.messages ++ second.2.messages

namespace OneAfterOther

variable {first second both : Except Fault Outcome × Run} {q : Program}

theorem of_failed {f : Fault} (hfirst : first.1 = .error f) (hboth : both.1 = .error f)
    (hmemory : both.2.memory = first.2.memory) (hmessages : both.2.messages = first.2.messages) :
    OneAfterOther lines q first second both where
  first_failed g hg := by
    cases hfirst.symm.trans hg
    exact ⟨hboth, hmemory, hmessages⟩
  second_failed o g ho := nomatch hfirst.symm.trans ho
  succeeded o o' ho := nomatch hfirst.symm.trans ho
  memory o ho := nomatch hfirst.symm.trans ho
  messages o ho := nomatch hfirst.symm.trans ho

theorem of_succeeded {o : Outcome} (hfirst : first.1 = .ok o)
    (hboth : both.1 = (second.1.map fun o' => if q.isEmpty then o else o').mapError
      (Fault.below lines))
    (hmemory : both.2.memory = second.2.memory)
    (hmessages : both.2.messages = first.2.messages ++ second.2.messages) :
    OneAfterOther lines q first second both where
  first_failed g hg := nomatch hfirst.symm.trans hg
  second_failed o' g ho hg := by rw [hboth, hg]; rfl
  succeeded o₁ o₂ ho₁ ho₂ := by
    cases hfirst.symm.trans ho₁
    rw [hboth, ho₂]
    rfl
  memory _ _ := hmemory
  messages _ _ := hmessages

end OneAfterOther

/-- One input of two programs comes to what two inputs come to, one after the other, if nobody asks
the evaluator to stop. -/
theorem evaluate_joined (a b : String) (m : Memory) (p q : Program)
    (hp : parse a.toList = .ok p) (hq : parse b.toList = .ok q) :
    OneAfterOther (a.toList.count '\n' + 2) q (evaluate .quiet a m)
      (evaluate .quiet b (evaluate .quiet a m).2.memory)
      (evaluate .quiet (a ++ "\n;\n" ++ b) m) := by
  have htext : (a ++ "\n;\n" ++ b).toList = joined a.toList b.toList := by
    simp [joined]
  have hboth : parse (a ++ "\n;\n" ++ b).toList = _ := htext ▸ parse_joined hp hq
  rw [evaluate_eq_map hp, evaluate_eq_map hq, evaluate_eq_map hboth, htext, execute_append,
    Action.bind_apply]
  -- The first program runs in the longer input as it does in its own.
  obtain ⟨hresult, htrails⟩ := follows_first hp b.toList none (.ofInput m) (.ofInput m) ⟨rfl, rfl⟩
  have hclear := Action.KeepsFlag.execute (c := ⟨a.toList, .quiet⟩) rfl p none (.ofInput m)
  rcases hfirst : execute ⟨a.toList, .quiet⟩ p none (.ofInput m) with ⟨f | v, r₁⟩ <;>
    rcases hjoined : execute ⟨joined a.toList b.toList, .quiet⟩ p none (.ofInput m) with ⟨x, r₂⟩ <;>
    rw [hfirst, hjoined] at hresult htrails <;> cases hresult
  · exact .of_failed rfl (congrArg Except.error f.below_zero) htrails.memory htrails.messages
  · rw [hfirst] at hclear
    -- An input of its own begins with the flag cleared, which the first program has left clear.
    have hstart : (Run.ofInput r₁.memory).Trails r₁.messages r₂ := by
      have hflag : r₁.memory.interrupted = false := hclear
      refine ⟨htrails.memory.trans ?_, htrails.messages.trans (List.append_nil _).symm⟩
      rw [Run.ofInput, Run.start, ← hflag]
    have hfollows := follows_second a.toList b.toList r₁.messages q v _ _ hstart
    rw [execute_result ⟨b.toList, .quiet⟩] at hfollows
    refine .of_succeeded rfl ?_ hfollows.2.memory hfollows.2.messages
    dsimp only
    rw [hfollows.1]
    rcases (execute ⟨b.toList, .quiet⟩ q none (.ofInput r₁.memory)).1 with g | u
    · rfl
    · cases q.isEmpty <;> rfl

/-- A comment at the end of the first input hides nothing of the second, which fails two lines
further down. -/
theorem evaluate_joined_comment :
    ∃ p q, parse "x = 1 // one".toList = .ok p ∧ parse "print(x); 7 / (x - 1)".toList = .ok q ∧
      OneAfterOther 2 q (evaluate .quiet "x = 1 // one" .empty)
        (evaluate .quiet "print(x); 7 / (x - 1)" ⟨[("x", .int 1)], false, 0⟩)
        (evaluate .quiet ("x = 1 // one" ++ "\n;\n" ++ "print(x); 7 / (x - 1)") .empty) ∧
      (evaluate .quiet ("x = 1 // one" ++ "\n;\n" ++ "print(x); 7 / (x - 1)") .empty).1 =
        .error (.failed ⟨3, 13⟩ .divisionByZero) := by
  have htokens : tokenize "x = 1 // one".toList = .ok
      [⟨.name "x", 0, 1⟩, ⟨.mark .assign, 2, 3⟩, ⟨.int 1, 4, 5⟩] := by cbv
  have hp : parse "x = 1 // one".toList = .ok [.assign "x" (.int 1)] := by
    rw [parse, htokens]
    rfl
  have htokens' : tokenize "print(x); 7 / (x - 1)".toList = .ok
      [⟨.name "print", 0, 5⟩, ⟨.mark .openParen, 5, 6⟩, ⟨.name "x", 6, 7⟩,
        ⟨.mark .closeParen, 7, 8⟩, ⟨.mark .semicolon, 8, 9⟩, ⟨.int 7, 10, 11⟩,
        ⟨.mark .slash, 12, 13⟩, ⟨.mark .openParen, 14, 15⟩, ⟨.name "x", 15, 16⟩,
        ⟨.mark .minus, 17, 18⟩, ⟨.int 1, 19, 20⟩, ⟨.mark .closeParen, 20, 21⟩] := by cbv
  have hq : parse "print(x); 7 / (x - 1)".toList = .ok [.bare (.call "print" [.var "x"] 0),
      .bare (.binary .div (.int 7) (.binary .sub (.var "x") (.int 1) 17) 12)] := by
    rw [parse, htokens']
    rfl
  have hfirst : evaluate .quiet "x = 1 // one" .empty =
      (.ok (.finished none), ⟨⟨[("x", .int 1)], false, 0⟩, [], 1⟩) := by
    rw [evaluate_of_parse hp]
    cbv
  have hsecond : evaluate .quiet "print(x); 7 / (x - 1)" ⟨[("x", .int 1)], false, 0⟩ =
      (.error (.failed ⟨1, 13⟩ .divisionByZero), ⟨⟨[("x", .int 1)], false, 0⟩, ["1"], 2⟩) := by
    rw [evaluate_of_parse hq]
    cbv
  have hlines : "x = 1 // one".toList.count '\n' + 2 = 2 := by cbv
  have hmemory : (evaluate .quiet "x = 1 // one" .empty).2.memory =
      ⟨[("x", .int 1)], false, 0⟩ := by rw [hfirst]
  have h := evaluate_joined "x = 1 // one" "print(x); 7 / (x - 1)" .empty _ _ hp hq
  rw [hlines, hmemory] at h
  have hfailed := h.second_failed (.finished none) (.failed ⟨1, 13⟩ .divisionByZero)
    (by rw [hfirst]) (by rw [hsecond])
  exact ⟨_, _, hp, hq, h, hfailed⟩

end RemoteEval.Script
