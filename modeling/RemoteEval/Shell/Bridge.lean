import RemoteEval.Shell.Prompt

/-!
# A shell and its host, step by step

In a `Bridge` the prompt, the receiver of its session and the activities of the host that serve the
connection go on each at its own pace. The prompt reads, submits what it has read, and waits until
the lock is given back (`Phase`). A `Move` is one step of one of them ; what it writes arrives at
once on the other side, where it waits to be received (`relay`).

`Bridge.step?` is the bridge after a move, if the move can happen, and every interleaving is a list
of moves.
-/

namespace RemoteEval.Shell

open Wire (Sentinel)

/-- What the prompt is doing. -/
inductive Phase where
  /-- It shows itself and reads. -/
  | reading
  /-- It submits a line. -/
  | submitting
  /-- It waits until the lock is given back. -/
  | waiting
  /-- It has ended. -/
  | ended (exit : Exit)
deriving DecidableEq, Repr

/-- A dialogue with a host, and how far the prompt is. -/
structure Bridge extends Dialogue Host where
  /-- How many octets the host receives at once. -/
  capacity : Nat
  /-- The connection of the host that serves the session. -/
  connection : Nat
  /-- What is still to be read. -/
  entries : List Entry
  /-- What the prompt is doing. -/
  phase : Phase

/-- The step that a submission takes next. -/
def Submission.next? (failure : Option String) : Submission → Option Move
  | .none => Option.none
  | .sized _ => some .take
  | .locked _ => some (.write failure)
  | .unsent _ => some .giveBack
  | .written _ => some .settle

/-- The step that a receiver takes next. -/
def Receiver.next? : Receiver → Option Move
  | .unstarted | .stopped => none
  | .waiting => some .receive
  | .holding _ => some .print
  | .printed | .ending => some .release

namespace Bridge

/-- A step of the prompt, the receiver or the host. -/
inductive Move where
  /-- The prompt reads. -/
  | read
  /-- The prompt goes on with a submission, and the stream may fail if it writes. -/
  | submit (failure : Option String)
  /-- The prompt finds that the lock was given back. -/
  | wake
  /-- The receiver goes on. -/
  | receive
  /-- The host goes on. -/
  | host (move : Host.Move)

/-- A bridge over which lines will be submitted, from a session whose receiver was started to a
host that serves nobody else. -/
def start (hostCapacity clientCapacity : Nat) (h : Host) (entries : List Entry) : Bridge where
  toDialogue := .new (Session.new hostCapacity clientCapacity).startReceiver h.connect.2
  capacity := hostCapacity
  connection := h.connect.1
  entries
  phase := .reading

/-- The prompt after a step of a submission. -/
def proceed (b : Bridge) (s : Session) : Option Submitted → Bridge
  | none => { b with session := s, phase := .submitting }
  | some (.sent isOpen) => { b with session := s, continuing := isOpen, phase := .waiting }
  | some (.failed (.tooLarge ..)) => { b with session := s, phase := .reading }
  | some (.failed .closed) => { b with session := s, phase := .ended .disconnected }
  | some (.failed e) => { b with session := s, phase := .ended (.failed e) }

/-- The prompt reads a line. -/
def enter (b : Bridge) (line : String) : Bridge :=
  let trimmed := String.ofList (Text.trim line.toList)
  if trimmed = "" then b
  else if trimmed ∈ quitWords then { b with phase := .ended .quit }
  else
    match b.session.start line with
    | .ok s => { b with history := b.history ++ [line] }.proceed s none
    | .error e => { b with history := b.history ++ [line] }.proceed b.session (some (.failed e))

/-- The prompt reads. -/
def read (b : Bridge) : Bridge :=
  let shown := { b with toDialogue := b.showPrompt }
  match b.entries with
  | [] => { shown with phase := .ended .endOfInput }
  | .interrupt :: rest =>
    { shown with
      entries := rest
      session := (b.session.writeSentinel .interrupt).clearPending
      continuing := false }
  | .line line :: rest => { shown with entries := rest }.enter line

/-- What either side has newly written arrives on the other. -/
def relay (before after : Bridge) : Bridge :=
  let written := after.session.written.drop before.session.written.length
  let sent := (after.other.connection after.connection).sent.drop
    (before.other.connection before.connection).sent.length
  { after with
    session := (sent.map .payload).foldl Session.deliver after.session
    other := written.foldl (fun h bs => h.arrive after.capacity after.connection bs) after.other }

/-- What a move makes of the side that makes it, if it can happen. -/
def act? (b : Bridge) : Move → Option Bridge
  | .read => if b.phase = .reading then some b.read else none
  | .submit failure =>
    if b.phase = .submitting then do
      let (s, outcome) ← b.session.step? (← b.session.submission.next? failure)
      some (b.proceed s outcome)
    else none
  | .wake =>
    match b.phase, b.session.lock with
    | .waiting, .idle => some { b with phase := .reading }
    | .waiting, .closed => some { b with phase := .ended .disconnected }
    | _, _ => none
  | .receive => do
    let (s, _) ← b.session.step? (← b.session.receiver.next?)
    some { b with session := s }
  | .host move => do
    let h ← b.other.step? move
    some { b with other := h }

/-- The bridge after a move, if it can happen. -/
def step? (b : Bridge) (move : Move) : Option Bridge :=
  (b.act? move).map b.relay

/-- The bridge after moves, if each of them can happen in its turn. -/
def run? (b : Bridge) : List Move → Option Bridge
  | [] => some b
  | move :: rest =>
    match b.step? move with
    | some next => next.run? rest
    | none => none

end Bridge

end RemoteEval.Shell
