import RemoteEval.Shell.Activity

/-!
# A line is submitted while others go on

While a line is submitted the receiver goes on, payloads arrive, and interrupts are sent on the same
stream. `Session.Advances` is a step of the submission, which asks an evaluator with a state of its
own (`Shadow`) whether what it has written is complete. `Session.Meanwhile` is a step of anyone
else. A `Session.Attempt` is a submission from its start to its end with any such steps in between,
and the list of what each step changed.
-/

namespace RemoteEval.Shell

/-- An evaluator that is asked whether a text is complete, and its state from one question to the
next. -/
abbrev Shadow (σ : Type) := String → σ → Except Script.Fault (Option String) × σ

/-- Who takes a step while a line is submitted. -/
inductive Actor where
  /-- The submission. -/
  | submission
  /-- The submission, by a question to its shadow. -/
  | shadow
  /-- Anyone else. -/
  | others
deriving DecidableEq, Repr

/-- What a step changes. -/
structure Change where
  /-- Who takes the step. -/
  actor : Actor
  /-- The session before it. -/
  before : Session
  /-- The session after it. -/
  after : Session

/-- Nothing is changed but how far the submission is. -/
def Change.IsBare (c : Change) : Prop :=
  c.after = { c.before with submission := c.after.submission }

namespace Session

variable {σ : Type}

/-- A step of a submission that has started, and how the submission ends with it. -/
inductive Advances (ask : Shadow σ) (s : Session) (m : σ) :
    Actor → Option Submitted → Session → σ → Prop
  | move (failure : Option String) {move : Move} {outcome : Option Submitted} {next : Session}
      (hwritten : ∀ text, s.submission ≠ .written text)
      (hmove : s.submission.next? failure = some move)
      (h : s.step? move = some (next, outcome)) :
      Advances ask s m .submission outcome next m
  | ask {text : String} (h : s.submission = .written text) :
      Advances ask s m .shadow (some (.sent (s.settleWith (fun t => (ask t m).1) text).1))
        (s.settleWith (fun t => (ask t m).1) text).2 (ask text m).2

/-- A step that can come between those of a submission. -/
inductive Meanwhile (s : Session) : Session → Prop
  | interrupt : Meanwhile s (s.writeSentinel .interrupt)
  | arrive (payload : List UInt8) (h : s.hungUp = false) : Meanwhile s (s.arrive payload)
  | hangUp : Meanwhile s s.hangUp
  | receive {next : Session} (h : s.receive? = some next) : Meanwhile s next
  | print {next : Session} (h : s.print? = some next) : Meanwhile s next
  | release {next : Session} (h : s.release? = some next) : Meanwhile s next
  | breakOff (h : s.receiver = .waiting) : Meanwhile s s.breakOff

/-- The rest of a submission that has started. -/
inductive Course (ask : Shadow σ) :
    Session → σ → List Change → Submitted → Session → σ → Prop
  | ends {s last : Session} {m m' : σ} {actor : Actor} {outcome : Submitted}
      (h : s.Advances ask m actor (some outcome) last m') :
      Course ask s m [⟨actor, s, last⟩] outcome last m'
  | advances {s mid last : Session} {m mid' m' : σ} {actor : Actor} {changes : List Change}
      {outcome : Submitted} (h : s.Advances ask m actor none mid mid')
      (hrest : Course ask mid mid' changes outcome last m') :
      Course ask s m (⟨actor, s, mid⟩ :: changes) outcome last m'
  | meanwhile {s mid last : Session} {m m' : σ} {changes : List Change} {outcome : Submitted}
      (h : s.Meanwhile mid) (hrest : Course ask mid m changes outcome last m') :
      Course ask s m (⟨.others, s, mid⟩ :: changes) outcome last m'

/-- A submission of a line, from its start to its end. -/
inductive Attempt (ask : Shadow σ) (line : String) (s : Session) (m : σ) :
    List Change → Submitted → Session → σ → Prop
  | refused {last : Session} {outcome : Submitted}
      (h : s.step? (.start line) = some (last, some outcome)) :
      Attempt ask line s m [⟨.submission, s, last⟩] outcome last m
  | begun {mid last : Session} {m' : σ} {changes : List Change} {outcome : Submitted}
      (h : s.step? (.start line) = some (mid, none))
      (hrest : Course ask mid m changes outcome last m') :
      Attempt ask line s m (⟨.submission, s, mid⟩ :: changes) outcome last m'

end Session

end RemoteEval.Shell
