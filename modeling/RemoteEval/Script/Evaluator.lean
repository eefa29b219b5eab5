import RemoteEval.Script.Eval

/-!
# The evaluator

An evaluator reads an input and runs it on its memory. Input that is incomplete or malformed
changes nothing, any other input first clears the flag. `Evaluator.script` also tells
whether an input is complete without running it and can be stopped while it renders ;
`Evaluator.ofEvaluate` makes do with evaluation alone.
-/

namespace RemoteEval.Script

/-- What an evaluation comes to. -/
structure Outcome where
  /-- The text that waits for more input. -/
  continuation : Option String
  /-- The value, if there is one. -/
  value : Option Value

namespace Outcome

/-- A finished evaluation. -/
def finished (value : Option Value) : Outcome := ⟨none, value⟩

/-- Input that needs more lines. -/
def unfinished (text : String) : Outcome := ⟨some text, none⟩

end Outcome

/-- Evaluate an input. -/
def evaluate (w : Surroundings) (input : String) (m : Memory) : Except Fault Outcome × Run :=
  match parse input.toList with
  | .error .incomplete => (.ok (.unfinished input), .start m)
  | .error (.malformed position cause) => (.error (.malformed position cause), .start m)
  | .ok program =>
    match execute ⟨input.toList, w⟩ program none (.start { m with interrupted := false }) with
    | (.ok v, r) => (.ok (.finished v), r)
    | (.error f, r) => (.error f, r)

/-- The text that waits for more input, if an input is incomplete. -/
def continuation? (input : String) : Except Fault (Option String) :=
  match parse input.toList with
  | .ok _ => .ok none
  | .error .incomplete => .ok (some input)
  | .error (.malformed position cause) => .error (.malformed position cause)

/-- The text of a value, unless the evaluator is asked to stop first. -/
def renderValue (v : Value) (m : Memory) : Except Fault String :=
  (Action.render .quiet v (.start m)).1

/-- What is asked of an evaluator. -/
structure Evaluator where
  /-- Evaluate an input. -/
  evaluate : Surroundings → String → Memory → Except Fault Outcome × Run
  /-- Tell whether an input is complete. -/
  continuation? : String → Memory → Except Fault (Option String) × Memory
  /-- Give the text of a value. -/
  render : Value → Memory → Except Fault String

namespace Evaluator

/-- The evaluator of scripts. -/
def script : Evaluator where
  evaluate := Script.evaluate
  continuation? input m := (Script.continuation? input, m)
  render := renderValue

/-- An evaluator that can only evaluate : it tells whether an input is complete by evaluating it
and dropping its messages, and nothing stops it while it renders. -/
def ofEvaluate (evaluate : Surroundings → String → Memory → Except Fault Outcome × Run) :
    Evaluator where
  evaluate := evaluate
  continuation? input m :=
    match evaluate .quiet input m with
    | (result, r) => (result.map Outcome.continuation, r.memory)
  render v _ := .ok v.text

end Evaluator

end RemoteEval.Script
