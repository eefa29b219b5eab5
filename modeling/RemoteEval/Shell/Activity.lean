import RemoteEval.Shell.Bridge
import RemoteEval.Shell.Startup

/-!
# All that a session does

A session does more than its moves : it can load the resources of the host before its receiver is
started, any evaluator can tell whether what it has sent is complete, and its stream can fail while
the receiver waits. A `Session.Step` is a move or one of these, `Session.Leads` are some of them in
a row, with the ends of the submissions among them.
-/

namespace RemoteEval.Shell

namespace Session

/-- Ask any evaluator whether a text that was sent is complete. -/
def settleWith (s : Session) (shadow : String → Except Script.Fault (Option String))
    (text : String) : Bool × Session :=
  match shadow text with
  | .ok (some rest) => (true, { s with pending := rest, submission := .none })
  | .ok none | .error _ => (false, { s with pending := "", submission := .none })

/-- The stream fails, and no more will come. -/
def breakOff (s : Session) : Session :=
  { s with receiver := .ending }

/-- Whether a prompt that waits for its reply goes on waiting. -/
def isBlocked (s : Session) : Bool :=
  s.lock = .busy

/-- A step of a session, and how a submission ended with it. -/
inductive Step (s : Session) : Option Submitted → Session → Prop
  | move {move : Move} {outcome : Option Submitted} {next : Session}
      (h : s.step? move = some (next, outcome)) : Step s outcome next
  | settle {text : String} (shadow : String → Except Script.Fault (Option String))
      (h : s.submission = .written text) :
      Step s (some (.sent (s.settleWith shadow text).1)) (s.settleWith shadow text).2
  | load {σ : Type} (answer : List Delivery) (exclusions : List String)
      (load : String → σ → Bool × σ) (m : σ) (h : s.submission = .none) :
      Step s none (s.loadStartup answer exclusions load m).2
  | breakOff (h : s.receiver = .waiting) : Step s none s.breakOff

/-- Some steps, and the ends of the submissions among them in order. -/
inductive Leads : Session → List Submitted → Session → Prop
  | refl (s : Session) : Leads s [] s
  | cons {s mid next : Session} {outcome : Option Submitted} {ends : List Submitted}
      (hstep : s.Step outcome mid) (hrest : Leads mid ends next) :
      Leads s (outcome.toList ++ ends) next

/-- A session as it can be found after it was connected. -/
def Reachable (s : Session) : Prop :=
  ∃ hostCapacity clientCapacity ends, Leads (new hostCapacity clientCapacity) ends s

end Session

/-- A prompt that waits is let go on unless its session is blocked. -/
theorem Bridge.wake_isSome_iff (b : Bridge) :
    (b.act? .wake).isSome ↔ b.phase = .waiting ∧ b.session.isBlocked = false := by
  cases hp : b.phase <;> cases hl : b.session.lock <;> simp [act?, Session.isBlocked, hp, hl]

end RemoteEval.Shell
