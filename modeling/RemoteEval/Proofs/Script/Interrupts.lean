import RemoteEval.Proofs.Script.Printing

/-!
# Requests to stop

An input that is run clears the flag first, so a request made before says nothing about it, and
with nobody asking the flag is clear behind it, too : no step raises it of its own
(`Action.KeepsFlag`). An input that is not run leaves it as it is. A request made while a message
is emitted is seen before the next statement, if there is one (`Stopped`). The message of a call
that is an operand fails its statement, with or without a request.
-/

namespace RemoteEval.Script

variable {α : Type} {c : Context} {r r' : Run}

/-! ## The flag -/

/-- A step leaves the flag as it was, whether or not it succeeds. -/
abbrev Action.KeepsFlag (a : Action α) : Prop :=
  a.Keeps fun r => r.memory.interrupted

namespace Action.KeepsFlag

theorem poll : (Action.poll .quiet).KeepsFlag := by
  intro r
  unfold Action.poll Surroundings.quiet
  simp only [Bool.or_false]
  split
  · next hflag => exact hflag.symm
  · rfl

theorem emit (message : String) : (Action.emit .quiet message).KeepsFlag :=
  fun _ => Bool.or_false _

/-- Only a rendering that finds the flag raised is stopped. -/
theorem render (v : Value) : (Action.render .quiet v).KeepsFlag := by
  intro r
  simp only [Action.render, Surroundings.quiet, Bool.or_false]
  split
  · rfl
  · next herror =>
    cases hflag : r.memory.interrupted with
    | true => rfl
    | false =>
      have hpass (n : Nat) :
          (if r.memory.interrupted then .error n else .ok () : Except Nat Unit) = .ok () := by
        rw [hflag]
        rfl
      rw [Value.render_of_passes hpass] at herror
      cases herror

theorem stepwise {c : Context} (hc : c.surroundings = .quiet) (places : List Nat) :
    Action.Stepwise c c id places (fun _ => True) fun _ a _ => a.KeepsFlag where
  toSequential := Keeps.sequential fun r => r.memory.interrupted
  undefined _ _ := rfl
  newSequence _ _ := rfl
  lookUp _ := Keeps.lookUp _ _
  poll := hc ▸ poll
  emit _ := hc ▸ emit _
  render v := hc ▸ render v

theorem execute (hc : c.surroundings = .quiet) (p : Program) (o : Option Value) :
    (Script.execute c p o).KeepsFlag :=
  (stepwise hc (p.flatMap Statement.offsets)).execute (fun _ _ _ => rfl) p o (List.Subset.refl _)
    fun _ _ => trivial

end Action.KeepsFlag

/-! ## Requests behind a message -/

/-- What an evaluation comes to that is asked to stop while `s` emits the message `line`. -/
inductive Stopped (c : Context) (r : Run) (s : Statement) (line : String) :
    Program → Except Fault Outcome → Prop
  /-- The line of the last statement. -/
  | last (hs : s.Prints c r line) : Stopped c r s line [] (.ok (.finished none))
  /-- The line of any other statement. -/
  | before {after : Program} (hs : s.Prints c r line) (hafter : after ≠ []) :
      Stopped c r s line after (.error .interrupted)
  /-- A message that is not the line of a statement. -/
  | inner {after : Program} (hs : ∀ own, ¬s.Prints c r own) (f : Fault) :
      Stopped c r s line after (.error f)

/-- Where an evaluation is asked to stop while it emits the message `line` behind the messages
`ms` : the statements before `s` have emitted those, and nothing is emitted or bound from there
on. -/
structure StoppedAt (c : Context) (start : Run) (o : Option Value) (before : Program)
    (s : Statement) (after : Program) (ms : List String) (line : String)
    (result : Except Fault Outcome) (r : Run) : Prop where
  /-- The statements before come to their end, and `s` emits the message, with what comes of it. -/
  exists_before : ∃ v r₀, execute c before o start = (.ok v, r₀) ∧ r₀.messages = ms ∧
    r.memory.scope = r₀.memory.scope ∧ Stopped c r₀ s line after result
  /-- The message is the last one. -/
  messages : r.messages = ms ++ [line]

/-- An evaluation is asked to stop at one of its statements. -/
def StoppedBehind (c : Context) (start : Run) (p : Program) (o : Option Value) (ms : List String)
    (line : String) (result : Except Fault Outcome) (r : Run) : Prop :=
  ∃ before s after, p = before ++ s :: after ∧
    StoppedAt c start o before s after ms line result r

theorem StoppedBehind.cons {start r₁ : Run} {s : Statement} {p : Program} {o v : Option Value}
    {ms : List String} {line : String} {result : Except Fault Outcome}
    (hturn : s.turn c start = (.ok v, r₁)) (h : StoppedBehind c r₁ p v ms line result r) :
    StoppedBehind c start (s :: p) o ms line result r := by
  obtain ⟨before, t, after, rfl, ⟨u, r₀, hran, hrest⟩, hmessages⟩ := h
  refine ⟨s :: before, t, after, rfl, ⟨u, r₀, ?_, hrest⟩, hmessages⟩
  rw [execute_cons, Action.bind_apply, hturn]
  exact hran

theorem Statement.Turn.messages_prefix {s : Statement} {x : Except Fault (Option Value)}
    (h : s.Turn c r (x, r')) : r.messages <+: r'.messages := by
  cases h with
  | quiet _ h => exact h ▸ List.prefix_refl _
  | print _ h => exact h.messages ▸ List.prefix_append _ _
  | failed h => exact h ▸ List.prefix_refl _
  | spoiled _ h => exact h ▸ List.prefix_append _ _

/-- An evaluation only adds to its messages. -/
theorem messages_prefix (c : Context) (p : Program) (o : Option Value) (r : Run) :
    r.messages <+: (execute c p o r).2.messages := by
  induction p generalizing o r with
  | nil => exact List.prefix_refl _
  | cons s rest ih =>
    have hcases := turn_cases c s r
    rw [execute_cons, Action.bind_apply]
    split
    · next heq =>
      rw [heq] at hcases
      exact hcases.messages_prefix.trans (ih _ _)
    · next heq =>
      rw [heq] at hcases
      exact hcases.messages_prefix

/-- A request to stop is seen before the next statement. -/
theorem execute_of_interrupted {p : Program} (hp : p ≠ []) (o : Option Value)
    (h : r.memory.interrupted = true) :
    ∃ r', execute c p o r = (.error .interrupted, r') ∧ r'.messages = r.messages ∧
      r'.memory.scope = r.memory.scope := by
  obtain ⟨s, rest, rfl⟩ := List.exists_cons_of_ne_nil hp
  have hpoll : Action.poll c.surroundings r =
      (.error .interrupted, { r with memory := r.memory.interrupt, polls := r.polls + 1 }) := by
    rw [Action.poll, h, Bool.true_or, if_pos rfl]
  refine ⟨{ r with memory := r.memory.interrupt, polls := r.polls + 1 }, ?_, rfl, rfl⟩
  rw [execute_cons, Statement.turn, Action.bind_apply, Action.bind_apply, hpoll]

/-- A call of `print` that is asked to stop while it emits its line is the last statement that is
run. -/
theorem StoppedBehind.of_print {s : Statement} {p : Program} {o : Option Value} {line : String}
    {result : Except Fault (Option Value)} {start r₁ : Run} (hline : s.Prints c start line)
    (hturn : s.turn c start = (.ok none, r₁)) (hemitted : start.Emitted c.surroundings line r₁)
    (hflag : c.surroundings.atMessage (start.messages ++ [line]) = true)
    (hrun : execute c p none r₁ = (result, r)) :
    StoppedBehind c start (s :: p) o start.messages line (result.map Outcome.finished) r := by
  have hscope : r₁.memory.scope = start.memory.scope := by
    cases hline
    exact scope_of_bare_turn hturn
  rcases p with _ | ⟨t, p⟩
  · cases hrun
    exact ⟨[], s, [], rfl, ⟨o, start, rfl, rfl, hscope, .last hline⟩, hemitted.messages⟩
  · have hne := List.cons_ne_nil t p
    obtain ⟨r₂, hstopped, hmessages, hscope'⟩ :=
      execute_of_interrupted hne none (hemitted.raised hflag)
    cases hrun.symm.trans hstopped
    exact ⟨[], s, t :: p, rfl, ⟨o, start, rfl, rfl, hscope'.trans hscope, .before hline hne⟩,
      hmessages.trans hemitted.messages⟩

/-- Messages that come after equally many others are the same. -/
theorem eq_of_prefix {before ms messages : List String} {own line : String}
    (hown : before ++ [own] <+: messages) (hline : ms ++ [line] <+: messages)
    (hlength : before.length = ms.length) : before = ms ∧ own = line := by
  have heq : before ++ [own] = ms ++ [line] :=
    (List.prefix_of_prefix_length_le hown hline (by simp [hlength])).eq_of_length
      (by simp [hlength])
  obtain ⟨rfl, hlast⟩ := List.append_inj heq hlength
  exact ⟨rfl, List.singleton_inj.1 hlast⟩

/-- An evaluation that is asked to stop while it emits a message ends there. -/
theorem stoppedBehind_of_execute {p : Program} {o : Option Value} {ms : List String} {line : String}
    {result : Except Fault (Option Value)} {start : Run}
    (hflag : c.surroundings.atMessage (ms ++ [line]) = true)
    (hrun : execute c p o start = (result, r)) (hemitted : ms ++ [line] <+: r.messages)
    (hstart : start.messages.length ≤ ms.length) :
    StoppedBehind c start p o ms line (result.map Outcome.finished) r := by
  have hlength := hemitted.length_le
  rw [List.length_append, List.length_singleton] at hlength
  -- The messages before the statement are at most `ms`, and it emits the next one at most.
  induction p generalizing o start with
  | nil =>
    cases hrun
    omega
  | cons s rest ih =>
    have hcases := turn_cases c s start
    rw [execute_cons, Action.bind_apply] at hrun
    split at hrun
    · next v r₁ hturn =>
      rw [hturn] at hcases
      cases hcases with
      | quiet _ hquiet => exact .cons hturn (ih hrun (hquiet ▸ hstart))
      | print hline hprinted =>
        obtain hlt | heq := Nat.lt_or_eq_of_le hstart
        · refine .cons hturn (ih hrun ?_)
          rw [hprinted.messages, List.length_append, List.length_singleton]
          exact hlt
        · have hprefix := messages_prefix c rest none r₁
          rw [hrun, hprinted.messages] at hprefix
          obtain ⟨rfl, rfl⟩ := eq_of_prefix hprefix hemitted heq
          exact .of_print hline hturn hprinted hflag hrun
    · next f r₁ hturn =>
      rw [hturn] at hcases
      cases hrun
      cases hcases with
      | failed h =>
        rw [h] at hlength
        omega
      | spoiled hs h =>
        rw [h, List.length_append, List.length_singleton] at hlength
        rw [h] at hemitted
        obtain ⟨rfl, rfl⟩ := eq_of_prefix (List.prefix_refl _) hemitted (by omega)
        exact ⟨[], s, rest, rfl, ⟨o, start, rfl, rfl, scope_of_turn_error hturn, .inner hs f⟩, h⟩

/-! ## Inputs -/

/-- An input that is run comes to the same whether or not it was asked to stop before, and leaves
the flag clear if nobody asks meanwhile. An input that is not run leaves everything as it was. A
request while a message is emitted ends the evaluation behind that message. -/
theorem requests_neither_leak_nor_linger :
    (∀ w input m program flag, parse input.toList = .ok program →
      evaluate w input { m with interrupted := flag } = evaluate w input m) ∧
    (∀ input m program, parse input.toList = .ok program →
      (evaluate .quiet input m).2.memory.interrupted = false) ∧
    (∀ w input m refusal, parse input.toList = .error refusal →
      (evaluate w input m).2 = .start m) ∧
    ∀ w input m program ms line, parse input.toList = .ok program →
      w.atMessage (ms ++ [line]) = true → ms ++ [line] <+: (evaluate w input m).2.messages →
        StoppedBehind ⟨input.toList, w⟩ (.ofInput m) program none ms line
          (evaluate w input m).1 (evaluate w input m).2 := by
  refine ⟨fun w input m program flag hparse => ?_, fun input m program hparse => ?_,
    fun w input m refusal hparse => ?_, fun w input m program ms line hparse hflag hemitted => ?_⟩
  · rw [evaluate_of_parse hparse, evaluate_of_parse hparse]
    rfl
  · rw [evaluate_eq_map hparse]
    exact Action.KeepsFlag.execute rfl program none (.ofInput m)
  · rw [evaluate, hparse]
    cases refusal <;> rfl
  · rw [evaluate_eq_map hparse] at hemitted ⊢
    exact stoppedBehind_of_execute hflag rfl hemitted (Nat.zero_le _)

/-- A request at the first line keeps the second statement from being run, and is forgotten by the
next evaluation. -/
theorem requests_neither_leak_nor_linger_print :
    (∃ program, parse "print(1); x = 2".toList = .ok program ∧
      evaluate .quiet "print(1); x = 2" ⟨[], true, 0⟩ =
        evaluate .quiet "print(1); x = 2" ⟨[], false, 0⟩ ∧
      (evaluate .quiet "print(1); x = 2" ⟨[], true, 0⟩).2.memory.interrupted = false ∧
      StoppedBehind ⟨"print(1); x = 2".toList, ⟨fun ms => ms = ["1"], fun _ => false⟩⟩
        (.ofInput .empty) program none [] "1" (.error .interrupted) ⟨⟨[], true, 0⟩, ["1"], 2⟩) ∧
    parse "print(".toList = .error .incomplete ∧
      (evaluate .quiet "print(" ⟨[], true, 0⟩).2 = .start ⟨[], true, 0⟩ := by
  obtain ⟨hforgotten, hclear, hunread, hstopped⟩ := requests_neither_leak_nor_linger
  have htokens : tokenize "print(1); x = 2".toList = .ok
      [⟨.name "print", 0, 5⟩, ⟨.mark .openParen, 5, 6⟩, ⟨.int 1, 6, 7⟩, ⟨.mark .closeParen, 7, 8⟩,
        ⟨.mark .semicolon, 8, 9⟩, ⟨.name "x", 10, 11⟩, ⟨.mark .assign, 12, 13⟩,
        ⟨.int 2, 14, 15⟩] := by cbv
  have hparse : parse "print(1); x = 2".toList =
      .ok [.bare (.call "print" [.int 1] 0), .assign "x" (.int 2)] := by
    rw [parse, htokens]
    rfl
  have hrun : evaluate ⟨fun ms => ms = ["1"], fun _ => false⟩ "print(1); x = 2" .empty =
      (.error .interrupted, ⟨⟨[], true, 0⟩, ["1"], 2⟩) := by
    rw [evaluate_of_parse hparse]
    cbv
  refine ⟨⟨_, hparse, hforgotten _ _ ⟨[], false, 0⟩ _ true hparse, hclear _ _ _ hparse, ?_⟩, ?_⟩
  · have h := hstopped ⟨fun ms => ms = ["1"], fun _ => false⟩ "print(1); x = 2" .empty _ [] "1"
      hparse rfl
    rw [hrun] at h
    exact h (List.prefix_refl _)
  · have hopen : parse "print(".toList = .error .incomplete := by
      have htokens : tokenize "print(".toList = .ok
          [⟨.name "print", 0, 5⟩, ⟨.mark .openParen, 5, 6⟩] := by cbv
      rw [parse, htokens]
      rfl
    exact ⟨hopen, hunread _ _ _ _ hopen⟩

end RemoteEval.Script
