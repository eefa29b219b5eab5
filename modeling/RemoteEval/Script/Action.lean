import RemoteEval.Script.Fault
import RemoteEval.Script.Memory
import RemoteEval.Value.Render

/-!
# Steps of an evaluation

An `Action` is a step of an evaluation : it may change the memory, emit messages, look whether
it should stop (`poll`), and fail. What it changed before it fails stays changed. While an
evaluation runs, others may ask it to stop (`Surroundings`) : when it emits a message, or just
before it looks.
-/

namespace RemoteEval.Script

/-- When others ask an evaluation to stop. -/
structure Surroundings where
  /-- Whether they do while the last of these messages is emitted. -/
  atMessage : List String → Bool
  /-- Whether they do before it looks the given number of times, counted from zero. -/
  beforePoll : Nat → Bool

/-- Nobody asks anything. -/
def Surroundings.quiet : Surroundings := ⟨fun _ => false, fun _ => false⟩

/-- What an evaluation refers to : its source, for positions, and its surroundings. -/
structure Context where
  /-- The text that is evaluated. -/
  source : List Char
  /-- Who may stop the evaluation. -/
  surroundings : Surroundings

/-- The position of an offset. -/
def Context.position (c : Context) (offset : Nat) : Position :=
  Position.locate c.source offset

/-- An evaluation in progress. -/
structure Run where
  /-- What the evaluator keeps. -/
  memory : Memory
  /-- The messages emitted so far, in order. -/
  messages : List String
  /-- How often the evaluation looked whether it should stop. -/
  polls : Nat

/-- The evaluation before its first step. -/
def Run.start (m : Memory) : Run := ⟨m, [], 0⟩

/-- A step of an evaluation. -/
def Action (α : Type) : Type := Run → Except Fault α × Run

namespace Action

variable {α β : Type}

/-- Do nothing and give a result. -/
def done (a : α) : Action α := fun r => (.ok a, r)

/-- Fail. -/
def fail (f : Fault) : Action α := fun r => (.error f, r)

/-- One step, and with its result the next. -/
def andThen (first : Action α) (next : α → Action β) : Action β := fun r =>
  match first r with
  | (.ok a, r) => next a r
  | (.error f, r) => (.error f, r)

instance : Monad Action where
  pure := done
  bind := andThen

/-- Fail at an offset. -/
def failAt (c : Context) (offset : Nat) (e : Failure) : Action α :=
  fail (.failed (c.position offset) e)

/-- A result that may be a failure at an offset. -/
def lift (c : Context) (offset : Nat) : Except Failure α → Action α
  | .ok a => done a
  | .error e => failAt c offset e

/-- Stop if asked to. -/
def poll (w : Surroundings) : Action Unit := fun r =>
  if r.memory.interrupted || w.beforePoll r.polls then
    (.error .interrupted, { r with memory := r.memory.interrupt, polls := r.polls + 1 })
  else (.ok (), { r with polls := r.polls + 1 })

/-- Emit a message. -/
def emit (w : Surroundings) (message : String) : Action Unit := fun r =>
  let messages := r.messages ++ [message]
  let interrupted := r.memory.interrupted || w.atMessage messages
  (.ok (), { r with memory := { r.memory with interrupted }, messages })

/-- Give a name a value. -/
def bindName (name : String) (value : Value) : Action Unit := fun r =>
  (.ok (), { r with memory := { r.memory with scope := r.memory.scope.set name value } })

/-- The value of a name. -/
def lookUp (name : String) : Action Value := fun r =>
  match r.memory.scope.get? name with
  | some v => (.ok v, r)
  | none => (.error (.undefined name), r)

/-- A new sequence. -/
def newSequence (source : Source Value) : Action Value := fun r =>
  (.ok (.seq r.memory.nextSequence source),
    { r with memory := { r.memory with nextSequence := r.memory.nextSequence + 1 } })

/-- The text of a value, looking whether to stop as often as a check is due. -/
def render (w : Surroundings) (v : Value) : Action String := fun r =>
  let check (n : Nat) : Except Nat Unit :=
    if r.memory.interrupted || w.beforePoll (r.polls + (n - 1)) then .error n else .ok ()
  match v.render check with
  | .ok page => (.ok page.text, { r with polls := r.polls + page.checks })
  | .error n =>
    (.error .interrupted, { r with memory := r.memory.interrupt, polls := r.polls + n })

/-- The text of a value in running text : that of a text without its quotes. -/
def plainText (w : Surroundings) : Value → Action String
  | .str s => done s
  | v => render w v

/-- The plain texts of values. -/
def plainTexts (w : Surroundings) : List Value → Action (List String)
  | [] => done []
  | v :: rest => do
    let first ← plainText w v
    let others ← plainTexts w rest
    return first :: others

end Action

end RemoteEval.Script
