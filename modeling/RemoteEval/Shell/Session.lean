import RemoteEval.Config.Settings
import RemoteEval.Script.Evaluator
import RemoteEval.Wire.Stream

/-!
# The session of a shell

A session is a shell's end of a connection. Two activities share it. The prompt submits
commands : a submission checks its size, takes the lock, writes, and then asks whether the
command was complete ; a write that fails gives the lock back (`Submission`). The receiver
takes what arrives, prints it and gives the lock back, until the host closes the connection
(`Receiver`). The lock is what the prompt learns of the receiver (`Lock`).

A `Move` is one step of one of the two, and `Session.step?` is the session after it, if it can
happen. Every interleaving is a list of moves.
-/

namespace RemoteEval.Shell

open Wire (LinkError Sentinel)

/-- Whether a command waits for its reply. -/
inductive Lock where
  /-- The next command may be sent. -/
  | idle
  /-- A command was sent. -/
  | busy
  /-- The host has closed the connection. -/
  | closed
deriving DecidableEq, Repr

/-- How far a submission is. -/
inductive Submission where
  /-- Nothing is submitted. -/
  | none
  /-- A text of a size that the host receives. -/
  | sized (text : String)
  /-- The lock is taken for a text. -/
  | locked (text : String)
  /-- Writing the text failed. -/
  | unsent (e : LinkError)
  /-- The text was written. -/
  | written (text : String)
deriving DecidableEq, Repr

/-- How a submission ends. -/
inductive Submitted where
  /-- The text was sent, and is still open or not. -/
  | sent (isOpen : Bool)
  /-- The text was not sent. -/
  | failed (e : LinkError)
deriving DecidableEq, Repr

/-- What the receiver is doing. -/
inductive Receiver where
  /-- It was not started. -/
  | unstarted
  /-- It waits for a frame. -/
  | waiting
  /-- It has a frame that it has not printed. -/
  | holding (frame : List UInt8)
  /-- It has printed and has not given the lock back. -/
  | printed
  /-- The host has closed the connection, and the lock does not say so yet. -/
  | ending
  /-- It is done. -/
  | stopped
deriving DecidableEq, Repr

/-- A session. -/
structure Session where
  /-- The longest payload that the host receives in one frame. -/
  hostCapacity : Nat
  /-- How many octets the session receives at once. -/
  clientCapacity : Nat
  /-- Whether a command waits for its reply. -/
  lock : Lock
  /-- The lines of a statement that is still open. -/
  pending : String
  /-- How far the current submission is. -/
  submission : Submission
  /-- What the receiver is doing. -/
  receiver : Receiver
  /-- The frames that have arrived and were not received. -/
  inbox : List (List UInt8)
  /-- Whether the host has closed the connection. -/
  hungUp : Bool
  /-- The payloads that were written. -/
  written : List (List UInt8)
  /-- The octets that were printed. -/
  printed : List UInt8
deriving DecidableEq, Repr

namespace Session

/-- A session that has just been connected. -/
def new (hostCapacity clientCapacity : Nat) : Session where
  hostCapacity
  clientCapacity
  lock := .idle
  pending := ""
  submission := .none
  receiver := .unstarted
  inbox := []
  hungUp := false
  written := []
  printed := []

/-- A session with given settings. -/
def ofSettings (c : Config.ShellSettings) : Session :=
  new c.hostCapacity.toNat c.clientCapacity.toNat

/-! ## Submitting -/

/-- The text that a line completes or continues. -/
def joined (s : Session) (line : String) : String :=
  if s.pending = "" then line else s.pending ++ "\n" ++ line

/-- Start to submit a line. A text that the host cannot receive in one frame is refused. -/
def start (s : Session) (line : String) : Except LinkError Session :=
  let text := s.joined line
  match Wire.checkSize (Text.octetCount text) s.hostCapacity with
  | .ok () => .ok { s with submission := .sized text }
  | .error e => .error e

/-- Take the lock for a text. A closed session gives none. -/
def take (s : Session) (text : String) : Except LinkError Session :=
  if s.lock = .closed then .error .closed
  else .ok { s with lock := .busy, submission := .locked text }

/-- Write a text, unless the stream fails. -/
def write (s : Session) (text : String) (failure : Option String) : Session :=
  match failure with
  | none => { s with submission := .written text, written := s.written ++ [Text.encode text] }
  | some detail => { s with submission := .unsent (.io detail) }

/-- Give the lock back after a write that failed. A session that was closed meanwhile stays
closed. -/
def giveBack (s : Session) : Session :=
  { s with
    lock := if s.lock = .busy then .idle else s.lock
    submission := .none }

/-- Ask whether a text that was sent is complete. Text that waits for more is kept. -/
def settle (s : Session) (text : String) : Bool × Session :=
  match Script.continuation? text with
  | .ok (some rest) => (true, { s with pending := rest, submission := .none })
  | .ok none | .error _ => (false, { s with pending := "", submission := .none })

/-- Submit a line without a step of the receiver in between. -/
def submit (s : Session) (line : String) (failure : Option String) : Submitted × Session :=
  match s.start line with
  | .error e => (.failed e, s)
  | .ok sized =>
    match sized.take (s.joined line) with
    | .error e => (.failed e, s)
    | .ok locked =>
      match failure with
      | some detail => (.failed (.io detail), (locked.write (s.joined line) failure).giveBack)
      | none =>
        let (isOpen, settled) := (locked.write (s.joined line) none).settle (s.joined line)
        (.sent isOpen, settled)

/-- Submit a line where `shadow` says whether a text is complete, as any evaluator may. -/
def submitWith (s : Session) (shadow : String → Except Script.Fault (Option String))
    (line : String) (failure : Option String) : Submitted × Session :=
  match s.start line with
  | .error e => (.failed e, s)
  | .ok sized =>
    match sized.take (s.joined line) with
    | .error e => (.failed e, s)
    | .ok locked =>
      let tried := locked.write (s.joined line) failure
      match failure with
      | some detail => (.failed (.io detail), tried.giveBack)
      | none =>
        match shadow (s.joined line) with
        | .ok (some rest) => (.sent true, { tried with pending := rest, submission := .none })
        | .ok none | .error _ => (.sent false, { tried with pending := "", submission := .none })

theorem submitWith_continuation? (s : Session) (line : String) (failure : Option String) :
    s.submitWith Script.continuation? line failure = s.submit line failure := by
  unfold submitWith submit
  split
  · rfl
  split
  · rfl
  cases failure with
  | some detail => rfl
  | none =>
    simp only [settle]
    split <;> rfl

/-- Drop the lines of the open statement. -/
def clearPending (s : Session) : Session :=
  { s with pending := "" }

/-- Write a control message, whatever the lock. -/
def writeSentinel (s : Session) (sentinel : Sentinel) : Session :=
  { s with written := s.written ++ [sentinel.octets] }

/-! ## Receiving -/

/-- A payload arrives in frames. -/
def arrive (s : Session) (payload : List UInt8) : Session :=
  { s with inbox := s.inbox ++ Wire.frames s.clientCapacity payload }

/-- The host closes the connection. -/
def hangUp (s : Session) : Session :=
  { s with hungUp := true }

/-- Start the receiver. Once it was started, nothing changes. -/
def startReceiver (s : Session) : Session :=
  if s.receiver = .unstarted then { s with receiver := .waiting } else s

/-- What is printed for a frame : its octets and a newline, or nothing for the control message
of a reply without value. -/
def printout (frame : List UInt8) : List UInt8 :=
  if frame = Sentinel.noValue.octets then [] else frame ++ [0x0A]

/-- The receiver takes a frame, or learns that no more will come. -/
def receive? (s : Session) : Option Session :=
  match s.receiver, s.inbox with
  | .waiting, frame :: rest => some { s with receiver := .holding frame, inbox := rest }
  | .waiting, [] => if s.hungUp then some { s with receiver := .ending } else none
  | _, _ => none

/-- The receiver prints the frame it has. -/
def print? (s : Session) : Option Session :=
  match s.receiver with
  | .holding frame => some { s with receiver := .printed, printed := s.printed ++ printout frame }
  | _ => none

/-- The receiver gives the lock back, or says that the connection is closed. -/
def release? (s : Session) : Option Session :=
  match s.receiver with
  | .printed => some { s with receiver := .waiting, lock := .idle }
  | .ending => some { s with receiver := .stopped, lock := .closed }
  | _ => none

/-- Receive, print and release as long as there is something to receive, at most `limit`
times. -/
def receiveAll : (limit : Nat) → Session → Session
  | 0, s => s
  | limit + 1, s =>
    match s.receive? with
    | none => s
    | some s =>
      let s := s.print?.getD s
      receiveAll limit (s.release?.getD s)

/-- Receive everything that has arrived. -/
def drain (s : Session) : Session :=
  receiveAll (s.inbox.length + 1) s

end Session

/-! ## Interleavings -/

/-- A step of the prompt, the receiver or the connection. -/
inductive Move where
  /-- The prompt starts to submit a line. -/
  | start (line : String)
  /-- It takes the lock. -/
  | take
  /-- It writes, or the stream fails. -/
  | write (failure : Option String)
  /-- It gives the lock back after a failure. -/
  | giveBack
  /-- It asks whether the text was complete. -/
  | settle
  /-- The prompt drops the open statement. -/
  | clearPending
  /-- An interrupt is sent. -/
  | interrupt
  /-- The receiver is started. -/
  | startReceiver
  /-- A payload arrives. -/
  | arrive (payload : List UInt8)
  /-- The host closes the connection. -/
  | hangUp
  /-- The receiver takes a frame. -/
  | receive
  /-- The receiver prints. -/
  | print
  /-- The receiver gives the lock back. -/
  | release

namespace Session

/-- The session after a move and how a submission ended with it, if the move can happen. -/
def step? (s : Session) : Move → Option (Session × Option Submitted)
  | .start line =>
    if s.submission = .none then
      match s.start line with
      | .ok next => some (next, none)
      | .error e => some (s, some (.failed e))
    else none
  | .take =>
    match s.submission with
    | .sized text =>
      match s.take text with
      | .ok next => some (next, none)
      | .error e => some ({ s with submission := .none }, some (.failed e))
    | _ => none
  | .write failure =>
    match s.submission with
    | .locked text => some (s.write text failure, none)
    | _ => none
  | .giveBack =>
    match s.submission with
    | .unsent e => some (s.giveBack, some (.failed e))
    | _ => none
  | .settle =>
    match s.submission with
    | .written text =>
      let (isOpen, next) := s.settle text
      some (next, some (.sent isOpen))
    | _ => none
  | .clearPending => if s.submission = .none then some (s.clearPending, none) else none
  | .interrupt => some (s.writeSentinel .interrupt, none)
  | .startReceiver => some (s.startReceiver, none)
  | .arrive payload => if s.hungUp then none else some (s.arrive payload, none)
  | .hangUp => some (s.hangUp, none)
  | .receive => s.receive?.map fun next => (next, none)
  | .print => s.print?.map fun next => (next, none)
  | .release => s.release?.map fun next => (next, none)

/-- The session after moves, if each of them can happen in its turn. -/
def run? (s : Session) : List Move → Option Session
  | [] => some s
  | move :: rest =>
    match s.step? move with
    | some (next, _) => next.run? rest
    | none => none

end Session

end RemoteEval.Shell
