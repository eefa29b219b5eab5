import RemoteEval.Host.Service
import RemoteEval.Shell.Session
import RemoteEval.Text.Blank

/-!
# The prompt

The prompt reads lines and submits them. A blank line is passed over, a quit word ends the
session, an interrupt drops the open statement. After each line that was sent the prompt waits
until everything sent in answer was received.

The other side is any `Peer`, which says what it sends in answer to a payload : a host
(`Peer.ofHost`), or one that answers from a list (`Peer.ofReplies`).
-/

namespace RemoteEval.Shell

open Wire (LinkError Sentinel)

/-! ## The other side -/

/-- What comes from the other side. -/
inductive Delivery where
  /-- A payload. -/
  | payload (bs : List UInt8)
  /-- The connection is closed. -/
  | hangUp
deriving DecidableEq, Repr

/-- The other side of a session : what it sends when a payload reaches it. -/
structure Peer (σ : Type) where
  /-- What it sends in answer, and what becomes of it. -/
  answer : List UInt8 → σ → List Delivery × σ

namespace Peer

/-- A host that serves the session as its connection `i`. -/
def ofHost (capacity i : Nat) : Peer Host where
  answer bs h :=
    let (payloads, h) := h.hear capacity .quiet i bs
    (payloads.map .payload, h)

/-- A peer that answers each payload but an interrupt with the next of some replies, and closes
the connection where there is none. -/
def ofReplies : Peer (List (Option (List UInt8))) where
  answer bs replies :=
    if bs = Sentinel.interrupt.octets then ([], replies)
    else
      match replies with
      | some reply :: rest => ([.payload reply], rest)
      | none :: rest => ([.hangUp], rest)
      | [] => ([.hangUp], [])

end Peer

namespace Session

/-- Something comes from the other side. Nothing comes once the connection is closed. -/
def deliver (s : Session) (d : Delivery) : Session :=
  if s.hungUp then s
  else
    match d with
    | .payload bs => s.arrive bs
    | .hangUp => s.hangUp

end Session

/-! ## The loop -/

/-- What is read at the prompt. -/
inductive Entry where
  /-- A line. -/
  | line (text : String)
  /-- An interrupt. -/
  | interrupt
deriving DecidableEq, Repr

/-- Why the prompt ends. -/
inductive Exit where
  /-- A quit word was read. -/
  | quit
  /-- There is nothing more to read. -/
  | endOfInput
  /-- The host has closed the connection. -/
  | disconnected
  /-- The stream failed. -/
  | failed (e : LinkError)
deriving DecidableEq, Repr

/-- The prompt of a new statement. -/
def freshPrompt : String := "> "

/-- The prompt of a statement that is still open. -/
def openPrompt : String := "* "

/-- Lines that end the session. -/
def quitWords : List String := ["quit", "quit;", "exit", "exit;"]

/-- A prompt with its session and the other side. -/
structure Dialogue (σ : Type) where
  /-- The session. -/
  session : Session
  /-- The other side. -/
  other : σ
  /-- Whether the last statement is still open. -/
  continuing : Bool
  /-- The prompts that were shown. -/
  prompts : List String
  /-- The lines that were kept. -/
  history : List String

namespace Dialogue

variable {σ : Type}

/-- A dialogue over a session. -/
def new (session : Session) (other : σ) : Dialogue σ := ⟨session, other, false, [], []⟩

/-- Show the prompt. -/
def showPrompt (d : Dialogue σ) : Dialogue σ :=
  { d with prompts := d.prompts ++ [if d.continuing then openPrompt else freshPrompt] }

/-- Let a payload reach the other side, and receive all it sends in answer. A payload without
octets reaches nobody. -/
def exchange (peer : Peer σ) (bs : List UInt8) (d : Dialogue σ) : Dialogue σ :=
  if bs = [] || d.session.hungUp then { d with session := d.session.drain }
  else
    let (deliveries, other) := peer.answer bs d.other
    { d with session := (deliveries.foldl Session.deliver d.session).drain, other }

/-- Send an interrupt and drop the open statement. -/
def interrupt (peer : Peer σ) (d : Dialogue σ) : Dialogue σ :=
  let d := { d with session := d.session.writeSentinel .interrupt }
  let d := exchange peer Sentinel.interrupt.octets d
  { d with session := d.session.clearPending, continuing := false }

/-- Submit a line, and go on unless the connection is closed. -/
def enter (peer : Peer σ) (line : String) (d : Dialogue σ) : Option Exit × Dialogue σ :=
  let d := { d with history := d.history ++ [line] }
  match d.session.submit line none with
  | (.failed (.tooLarge ..), _) => (none, d)
  | (.failed .closed, _) => (some .disconnected, d)
  | (.failed e, s) => (some (.failed e), { d with session := s })
  | (.sent isOpen, s) =>
    let sent := s.written.getLast?.getD []
    let d := exchange peer sent { d with session := s, continuing := isOpen }
    (if d.session.lock = .closed then some .disconnected else none, d)

/-- Do what an entry asks for, and go on unless it ends the prompt. -/
def read (peer : Peer σ) (e : Entry) (d : Dialogue σ) : Option Exit × Dialogue σ :=
  match e with
  | .interrupt => (none, d.interrupt peer)
  | .line text =>
    let trimmed := String.ofList (Text.trim text.toList)
    if trimmed = "" then (none, d)
    else if trimmed ∈ quitWords then (some .quit, d)
    else d.enter peer text

/-- Show the prompt and read, until an entry ends the prompt or none is left. -/
def run (peer : Peer σ) : List Entry → Dialogue σ → Exit × Dialogue σ
  | [], d => (.endOfInput, d.showPrompt)
  | e :: rest, d =>
    match d.showPrompt.read peer e with
    | (some exit, d) => (exit, d)
    | (none, d) => run peer rest d

end Dialogue

end RemoteEval.Shell
