import RemoteEval.Proofs.Script.Framing
import RemoteEval.Proofs.Value.Strokes

/-!
# What a program prints

`print` may be called anywhere in an expression, but it yields nothing : a call of it that is an
operand emits its message and fails there. So an expression emits nothing if it comes to a value,
and at most one message if it fails (`Action.Terse`). What a program prints are the lines of its
statements that are calls of `print`, in order (`Prints`), and where it fails at most one message
behind those of the statements before (`messages_are_printed`).
-/

namespace RemoteEval.Script

variable {α β : Type} {c : Context} {s : Statement} {r r' : Run}

/-! ## Lines -/

/-- The plain text of a value : that of a text without its quotes. -/
def plainTextOf : Value → String
  | .str s => s
  | v => v.text

theorem plainText_ok {w : Surroundings} {v : Value} {text : String}
    (h : Action.plainText w v r = (.ok text, r')) : text = plainTextOf v := by
  unfold Action.plainText at h
  split at h
  · cases h
    rfl
  · next hstr =>
    simp only [Action.render] at h
    split at h
    · next page hpage =>
      cases h
      rw [Value.text_of_render hpage, plainTextOf]
      exact hstr
    · cases h

theorem plainTexts_ok {w : Surroundings} {vs : List Value} {texts : List String}
    (h : Action.plainTexts w vs r = (.ok texts, r')) : texts = vs.map plainTextOf := by
  induction vs generalizing r texts with
  | nil =>
    cases h
    rfl
  | cons v vs ih =>
    rw [Action.plainTexts] at h
    obtain ⟨first, r₁, hfirst, h⟩ := Action.exists_of_bind_ok h
    obtain ⟨others, r₂, hothers, h⟩ := Action.exists_of_bind_ok h
    cases h
    rw [List.map_cons, plainText_ok hfirst, ih hothers]

/-- A statement that is a call of `print`. -/
def Statement.IsPrint (s : Statement) : Prop :=
  ∃ args offset, s = .bare (.call Builtin.print.name args offset)

/-- The line of a statement that is a call of `print` : the arguments have values in the state
before, and the line is made of their plain texts. -/
inductive Statement.Prints (c : Context) (r : Run) : Statement → String → Prop
  | call {args : List Expr} {offset : Nat} {vs : List Value} {r₁ r₂ : Run}
      (hpoll : Action.poll c.surroundings r = (.ok (), r₁))
      (hargs : walkItems c args r₁ = (.ok vs, r₂)) :
      Prints c r (.bare (.call Builtin.print.name args offset))
        (" ".intercalate (vs.map plainTextOf))

theorem Statement.Prints.isPrint {line : String} (h : s.Prints c r line) : s.IsPrint := by
  cases h
  exact ⟨_, _, rfl⟩

/-- What the statements of a run print : those that are calls of `print` one line each, the others
nothing. -/
inductive Prints (c : Context) : Run → Program → List String → Run → Prop
  | nil (r : Run) : Prints c r [] [] r
  | print {s : Statement} {rest : Program} {line : String} {lines : List String} {v : Option Value}
      {r r₁ r₂ : Run} (hline : s.Prints c r line) (hturn : s.turn c r = (.ok v, r₁))
      (hrest : Prints c r₁ rest lines r₂) : Prints c r (s :: rest) (line :: lines) r₂
  | other {s : Statement} {rest : Program} {lines : List String} {v : Option Value}
      {r r₁ r₂ : Run} (hs : ¬s.IsPrint) (hturn : s.turn c r = (.ok v, r₁))
      (hrest : Prints c r₁ rest lines r₂) : Prints c r (s :: rest) lines r₂

/-! ## Steps that emit nothing -/

/-- A step emits nothing, whether or not it succeeds. -/
abbrev Action.Silent (a : Action α) : Prop :=
  a.Keeps fun r => r.messages

namespace Action.Silent

/-- Every step an expression is made of emits nothing, but the one that does. -/
theorem basic (c : Context) (places : List Nat) :
    Action.Basic c c id places fun _ a _ => a.Silent :=
  Keeps.basic fun _ _ _ _ => rfl

theorem poll (c : Context) : (Action.poll c.surroundings).Silent :=
  (basic c []).poll

end Action.Silent

/-! ## Steps that emit at most one message -/

/-- A step emits nothing if it succeeds, and at most one message if it fails. -/
structure Action.Terse (a : Action α) : Prop where
  ok {r r' : Run} {x : α} : a r = (.ok x, r') → r'.messages = r.messages
  error {r r' : Run} {f : Fault} : a r = (.error f, r') →
    r'.messages = r.messages ∨ ∃ line, r'.messages = r.messages ++ [line]

namespace Action.Terse

theorem of_silent {a : Action α} (h : a.Silent) : a.Terse where
  ok hok := h.view_eq hok
  error herror := .inl (h.view_eq herror)

/-- A step that always fails. -/
theorem of_fails {a : Action α} (h : ∀ r, ∃ f r', a r = (.error f, r') ∧
    (r'.messages = r.messages ∨ ∃ line, r'.messages = r.messages ++ [line])) : a.Terse where
  ok {r r' x} hok := by
    obtain ⟨f, r₁, hfails, -⟩ := h r
    cases hfails.symm.trans hok
  error {r r' f} herror := by
    obtain ⟨g, r₁, hfails, hmessages⟩ := h r
    cases hfails.symm.trans herror
    exact hmessages

theorem bind {a : Action α} {f : α → Action β} (ha : a.Terse) (hf : ∀ x, (f x).Terse) :
    (a >>= f).Terse where
  ok h := by
    obtain ⟨x, r₁, hfirst, hsecond⟩ := exists_of_bind_ok h
    exact ((hf x).ok hsecond).trans (ha.ok hfirst)
  error h := by
    obtain hfirst | ⟨x, r₁, hfirst, hsecond⟩ := of_bind_error h
    · exact ha.error hfirst
    · rw [← ha.ok hfirst]
      exact (hf x).error hsecond

end Action.Terse

/-! ## Calls of `print` -/

theorem silent_plainTexts (c : Context) (vs : List Value) :
    (Action.plainTexts c.surroundings vs).Silent :=
  (Action.Silent.basic c []).plainTexts vs

/-- A line was emitted, and if others asked to stop meanwhile the flag is raised. -/
structure Run.Emitted (w : Surroundings) (line : String) (before after : Run) : Prop where
  messages : after.messages = before.messages ++ [line]
  raised : w.atMessage (before.messages ++ [line]) = true → after.memory.interrupted = true

theorem Run.emitted (w : Surroundings) (line : String) (r : Run) :
    r.Emitted w line (Action.emit w line r).2 where
  messages := rfl
  raised h := Bool.or_eq_true_iff.2 (.inr h)

theorem Run.Emitted.of_messages {w : Surroundings} {line : String} {r₁ r₂ : Run}
    (h : r₁.Emitted w line r₂) (hr : r₁.messages = r.messages) : r.Emitted w line r₂ where
  messages := hr ▸ h.messages
  raised := hr ▸ h.raised

/-- A call of `print` emits the line of its arguments, unless it is stopped before. -/
theorem callFunction_print (c : Context) (offset : Nat) (vs : List Value) (r : Run) :
    (∃ r', callFunction c Builtin.print.name offset vs r = (.ok none, r') ∧
      r.Emitted c.surroundings (" ".intercalate (vs.map plainTextOf)) r') ∨
    ∃ f r', callFunction c Builtin.print.name offset vs r = (.error f, r') ∧
      r'.messages = r.messages := by
  have hcall : callFunction c Builtin.print.name offset vs =
      Action.plainTexts c.surroundings vs >>= fun texts =>
        Action.emit c.surroundings (" ".intercalate texts) >>= fun _ => pure none := rfl
  have hsilent := silent_plainTexts c vs
  rw [hcall, Action.bind_apply]
  split
  · next texts r₁ heq =>
    obtain rfl := plainTexts_ok heq
    exact .inl ⟨_, rfl, (r₁.emitted _ _).of_messages (hsilent.view_eq heq)⟩
  · next f r₁ heq => exact .inr ⟨f, r₁, rfl, hsilent.view_eq heq⟩

namespace Action.Terse

/-- A call of `print` as an operand always fails : behind its message, if it comes to one. -/
theorem print (c c' : Context) (offset offset' : Nat) (vs : List Value) :
    (callFunction c Builtin.print.name offset vs >>=
      valueOfCall c' Builtin.print.name offset').Terse := by
  refine of_fails fun r => ?_
  obtain ⟨r', hprint, hemitted⟩ | ⟨f, r', hfailed, hr'⟩ := callFunction_print c offset vs r
  · refine ⟨.failed (c'.position offset') (.noValue Builtin.print.name), r', ?_,
      .inr ⟨_, hemitted.messages⟩⟩
    rw [bind_apply, hprint]
    rfl
  · exact ⟨f, r', by rw [bind_apply, hfailed], .inl hr'⟩

/-- The message of a call of `print` alone would break this, so the call is taken as a whole. -/
theorem composed (c : Context) (places : List Nat) :
    Action.Composed c c id places (fun _ => True) fun _ a _ => a.Terse where
  pure x := of_silent fun _ => rfl
  bind := bind
  failAt _ _ := of_silent fun _ => rfl
  lookUp _ := of_silent (Keeps.lookUp _ _)
  call {offset} h name args := by
    by_cases hname : name = Builtin.print.name
    · subst hname
      exact print c c offset offset args
    · exact (of_silent ((Silent.basic c places).callFunction h hname args)).bind fun o =>
        of_silent ((Silent.basic c places).valueOfCall h name o)

end Action.Terse

/-! ## Statements -/

/-- An expression that comes to a value has emitted nothing. -/
theorem messages_of_eval_ok {e : Expr} {v : Value} (h : e.eval c r = (.ok v, r')) :
    r'.messages = r.messages :=
  ((Action.Terse.composed c e.offsets).eval e (List.Subset.refl _) fun _ _ => trivial).ok h

theorem terse_walkItems (c : Context) (args : List Expr) : (walkItems c args).Terse := by
  rw [walkItems_eq]
  exact (Action.Terse.composed c (Expr.offsetsItems args)).denoteItems args (List.Subset.refl _)
    fun _ _ => trivial

/-- A statement that is no call of `print` emits nothing if it succeeds. -/
theorem terse_exec (hs : ¬s.IsPrint) : (s.exec c).Terse := by
  cases s with
  | assign name e =>
    have heval := (Action.Terse.composed c e.offsets).eval e (List.Subset.refl _)
      fun _ _ => trivial
    exact heval.bind fun v => .of_silent fun _ => rfl
  | bare e =>
    refine (Action.Terse.composed c e.offsets).bare e (List.Subset.refl _) (fun _ _ => trivial)
      fun name args offset he vs => ?_
    have hname : name ≠ Builtin.print.name := by
      rintro rfl
      exact hs ⟨args, offset, he ▸ rfl⟩
    subst he
    exact .of_silent ((Action.Silent.basic c [offset]).callFunction List.mem_cons_self hname vs)

theorem terse_turn (hs : ¬s.IsPrint) : (s.turn c).Terse :=
  (Action.Terse.of_silent (.poll c)).bind fun _ => terse_exec hs

/-- What comes of a statement in its turn. -/
inductive Statement.Turn (c : Context) (s : Statement) (r : Run) :
    Except Fault (Option Value) × Run → Prop
  /-- It emits nothing. -/
  | quiet {v : Option Value} {r' : Run} (hs : ¬s.IsPrint) (h : r'.messages = r.messages) :
      Turn c s r (.ok v, r')
  /-- It prints a line. -/
  | print {line : String} {r' : Run} (hline : s.Prints c r line)
      (h : r.Emitted c.surroundings line r') : Turn c s r (.ok none, r')
  /-- It fails before anything is emitted. -/
  | failed {f : Fault} {r' : Run} (h : r'.messages = r.messages) : Turn c s r (.error f, r')
  /-- It fails behind a message, which is none of its own. -/
  | spoiled {f : Fault} {line : String} {r' : Run} (hs : ∀ own, ¬s.Prints c r own)
      (h : r'.messages = r.messages ++ [line]) : Turn c s r (.error f, r')

theorem Statement.Turn.of_error {f : Fault} (hs : ∀ own, ¬s.Prints c r own)
    (h : r'.messages = r.messages ∨ ∃ line, r'.messages = r.messages ++ [line]) :
    s.Turn c r (.error f, r') := by
  obtain h | ⟨line, h⟩ := h
  · exact .failed h
  · exact .spoiled hs h

/-- A call of `print` in its turn prints its line once its arguments have values. -/
theorem turn_print (c : Context) (args : List Expr) (offset : Nat) (r : Run) :
    (Statement.bare (.call Builtin.print.name args offset)).Turn c r
      ((Statement.bare (.call Builtin.print.name args offset)).turn c r) := by
  have hturn : (Statement.bare (.call Builtin.print.name args offset)).turn c =
      Action.poll c.surroundings >>= fun _ => walkItems c args >>=
        callFunction c Builtin.print.name offset := rfl
  rw [hturn, Action.bind_apply]
  split
  · next r₁ hpoll =>
    have hr₁ : r₁.messages = r.messages := (Action.Silent.poll c).view_eq hpoll
    rw [Action.bind_apply]
    split
    · next vs r₂ hargs =>
      have hr₂ := ((terse_walkItems c args).ok hargs).trans hr₁
      obtain ⟨r₃, hprint, hemitted⟩ | ⟨f, r₃, hfailed, hr₃⟩ := callFunction_print c offset vs r₂
      · rw [hprint]
        exact .print (.call hpoll hargs) (hemitted.of_messages hr₂)
      · rw [hfailed]
        exact .failed (hr₃.trans hr₂)
    · next f r₂ hargs =>
      have hr₂ := (terse_walkItems c args).error hargs
      rw [hr₁] at hr₂
      refine .of_error (fun own hown => ?_) hr₂
      cases hown with
      | call hpoll' hargs' =>
        cases hpoll.symm.trans hpoll'
        cases hargs.symm.trans hargs'
  · next hpoll => exact .failed ((Action.Silent.poll c).view_eq hpoll)

/-- A statement in its turn emits nothing or prints its line, unless it fails, with at most one
message then. -/
theorem turn_cases (c : Context) (s : Statement) (r : Run) : s.Turn c r (s.turn c r) := by
  by_cases hs : s.IsPrint
  · obtain ⟨args, offset, rfl⟩ := hs
    exact turn_print c args offset r
  · have hterse := terse_turn (c := c) hs
    rcases hrun : s.turn c r with ⟨f | v, r'⟩
    · exact .of_error (fun own hown => hs hown.isPrint) (hterse.error hrun)
    · exact .quiet hs (hterse.ok hrun)

/-! ## Programs -/

/-- A program that comes to its end has emitted what its statements print. -/
theorem exists_prints_of_execute {p : Program} {o v : Option Value}
    (h : execute c p o r = (.ok v, r')) :
    ∃ lines, Prints c r p lines r' ∧ r'.messages = r.messages ++ lines := by
  induction p generalizing o r with
  | nil =>
    cases h
    exact ⟨[], .nil _, (List.append_nil _).symm⟩
  | cons s rest ih =>
    rw [execute_cons] at h
    obtain ⟨v, r₁, hturn, hrun⟩ := Action.exists_of_bind_ok h
    obtain ⟨lines, hrest, hmessages⟩ := ih hrun
    have hcases := turn_cases c s r
    rw [hturn] at hcases
    cases hcases with
    | quiet hs hquiet =>
      rw [hquiet] at hmessages
      exact ⟨lines, .other hs hturn hrest, hmessages⟩
    | print hline hemitted =>
      refine ⟨_, .print hline hturn hrest, hmessages.trans ?_⟩
      rw [hemitted.messages, List.append_assoc, List.singleton_append]

/-- Where a program fails that has emitted `lines` so far : the statements before `s` print these,
and at most one message comes behind. -/
structure FailsBehind (c : Context) (start : Run) (before : Program) (s : Statement)
    (lines : List String) (f : Fault) (r : Run) : Prop where
  /-- The statements before come to their end, and the statement fails from there on. -/
  exists_before : ∃ v r₀, execute c before none start = (.ok v, r₀) ∧
    Prints c start before lines r₀ ∧ s.turn c r₀ = (.error f, r)
  /-- The statement emits at most one message. -/
  messages : r.messages = lines ∨ ∃ line, r.messages = lines ++ [line]

/-- An input that succeeds emits what its statements print, one line for each that is a call of
`print`. One that fails emits what the statements before print, and at most one message behind. An
expression that comes to a value emits nothing. -/
theorem messages_are_printed :
    (∀ w input m program o r, parse input.toList = .ok program →
      evaluate w input m = (.ok o, r) →
        Prints ⟨input.toList, w⟩ (.ofInput m) program r.messages r) ∧
    (∀ w input m program f r, parse input.toList = .ok program →
      evaluate w input m = (.error f, r) →
        ∃ before s after lines, program = before ++ s :: after ∧
          FailsBehind ⟨input.toList, w⟩ (.ofInput m) before s lines f r) ∧
    ∀ c (e : Expr) r v r', e.eval c r = (.ok v, r') → r'.messages = r.messages := by
  refine ⟨fun w input m program o r hparse hrun => ?_, fun w input m program f r hparse hrun => ?_,
    fun c e r v r' => messages_of_eval_ok⟩
  · obtain ⟨v, -, hexecute⟩ := execute_of_evaluate_ok hparse hrun
    obtain ⟨lines, hprints, hmessages⟩ := exists_prints_of_execute hexecute
    obtain rfl : r.messages = lines := hmessages
    exact hprints
  · obtain ⟨before, s, after, v, r₀, rfl, hran, hfailed⟩ :=
      exists_of_execute_error (execute_of_evaluate_error hparse hrun)
    obtain ⟨lines, hprints, hmessages⟩ := exists_prints_of_execute hran
    obtain rfl : r₀.messages = lines := hmessages
    have hcases := turn_cases ⟨input.toList, w⟩ s r₀
    rw [hfailed] at hcases
    refine ⟨before, s, after, _, rfl, ⟨v, r₀, hran, hprints, hfailed⟩, ?_⟩
    cases hcases with
    | failed h => exact .inl h
    | spoiled _ h => exact .inr ⟨_, h⟩

/-- The second line is told in the state its statement finds, and the message of a call that is an
operand is the last one. -/
theorem messages_are_printed_twice :
    (∃ program o r, parse "print(1); x = [2]; print(x, \"a\")".toList = .ok program ∧
      evaluate .quiet "print(1); x = [2]; print(x, \"a\")" .empty = (.ok o, r) ∧
      r.messages = ["1", "{ 2 } a"] ∧
      Prints ⟨"print(1); x = [2]; print(x, \"a\")".toList, .quiet⟩ (.ofInput .empty) program
        r.messages r) ∧
    (∃ f r before s after lines,
      parse "print(1); [print(2)]; print(3)".toList = .ok (before ++ s :: after) ∧
      evaluate .quiet "print(1); [print(2)]; print(3)" .empty = (.error f, r) ∧
      r.messages = ["1", "2"] ∧
      FailsBehind ⟨"print(1); [print(2)]; print(3)".toList, .quiet⟩ (.ofInput .empty) before s
        lines f r) ∧
    ∃ r', (Expr.array [.int 2]).eval ⟨[], .quiet⟩ (.start .empty) = (.ok (.array [.int 2]), r') ∧
      r'.messages = [] := by
  obtain ⟨hok, herror, heval⟩ := messages_are_printed
  refine ⟨?_, ?_, ?_⟩
  · have htokens : tokenize "print(1); x = [2]; print(x, \"a\")".toList = .ok
        [⟨.name "print", 0, 5⟩, ⟨.mark .openParen, 5, 6⟩, ⟨.int 1, 6, 7⟩, ⟨.mark .closeParen, 7, 8⟩,
          ⟨.mark .semicolon, 8, 9⟩, ⟨.name "x", 10, 11⟩, ⟨.mark .assign, 12, 13⟩,
          ⟨.mark .openBracket, 14, 15⟩, ⟨.int 2, 15, 16⟩, ⟨.mark .closeBracket, 16, 17⟩,
          ⟨.mark .semicolon, 17, 18⟩, ⟨.name "print", 19, 24⟩, ⟨.mark .openParen, 24, 25⟩,
          ⟨.name "x", 25, 26⟩, ⟨.mark .comma, 26, 27⟩, ⟨.str "a", 28, 31⟩,
          ⟨.mark .closeParen, 31, 32⟩] := by cbv
    have hparse : parse "print(1); x = [2]; print(x, \"a\")".toList =
        .ok [.bare (.call "print" [.int 1] 0), .assign "x" (.array [.int 2]),
          .bare (.call "print" [.var "x", .str "a"] 19)] := by
      rw [parse, htokens]
      rfl
    have hrun : evaluate .quiet "print(1); x = [2]; print(x, \"a\")" .empty =
        (.ok (.finished none),
          ⟨⟨[("x", .array [.int 2])], false, 0⟩, ["1", "{ 2 } a"], 3⟩) := by
      rw [evaluate_of_parse hparse]
      cbv
    exact ⟨_, _, _, hparse, hrun, rfl, hok _ _ _ _ _ _ hparse hrun⟩
  · have htokens : tokenize "print(1); [print(2)]; print(3)".toList = .ok
        [⟨.name "print", 0, 5⟩, ⟨.mark .openParen, 5, 6⟩, ⟨.int 1, 6, 7⟩, ⟨.mark .closeParen, 7, 8⟩,
          ⟨.mark .semicolon, 8, 9⟩, ⟨.mark .openBracket, 10, 11⟩, ⟨.name "print", 11, 16⟩,
          ⟨.mark .openParen, 16, 17⟩, ⟨.int 2, 17, 18⟩, ⟨.mark .closeParen, 18, 19⟩,
          ⟨.mark .closeBracket, 19, 20⟩, ⟨.mark .semicolon, 20, 21⟩, ⟨.name "print", 22, 27⟩,
          ⟨.mark .openParen, 27, 28⟩, ⟨.int 3, 28, 29⟩, ⟨.mark .closeParen, 29, 30⟩] := by cbv
    have hparse : parse "print(1); [print(2)]; print(3)".toList =
        .ok [.bare (.call "print" [.int 1] 0), .bare (.array [.call "print" [.int 2] 11]),
          .bare (.call "print" [.int 3] 22)] := by
      rw [parse, htokens]
      rfl
    have hrun : evaluate .quiet "print(1); [print(2)]; print(3)" .empty =
        (.error (.failed ⟨1, 12⟩ (.noValue "print")), ⟨.empty, ["1", "2"], 2⟩) := by
      rw [evaluate_of_parse hparse]
      cbv
    obtain ⟨before, s, after, lines, hprogram, hfails⟩ := herror _ _ _ _ _ _ hparse hrun
    exact ⟨_, _, before, s, after, lines, hprogram ▸ hparse, hrun, rfl, hfails⟩
  · have hrun : (Expr.array [.int 2]).eval ⟨[], .quiet⟩ (.start .empty) =
        (.ok (.array [.int 2]), .start .empty) := rfl
    exact ⟨_, hrun, heval _ _ _ _ _ hrun⟩

end RemoteEval.Script
