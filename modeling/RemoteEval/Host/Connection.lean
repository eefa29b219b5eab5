import RemoteEval.Host.Response
import RemoteEval.Wire.Stream

/-!
# Connections of a host

Three activities serve each connection. A reader takes the frames that arrive, handles control
messages at once and queues commands. A worker evaluates the queued commands one after
another ; while it evaluates, no other worker does. A writer sends the payloads that the other
two have queued, in the order in which they were queued.

A `Move` is one step of one of these, and `Host.step?` is the host after it, if it can happen.
Every interleaving of the activities is a list of moves.
-/

namespace RemoteEval

namespace Host

open Script (Memory Surroundings)
open Wire (Frame)

/-- What a worker is doing. -/
inductive Worker where
  /-- Nothing. -/
  | free
  /-- It evaluates a command that has yet to print `diagnostics`. -/
  | evaluating (diagnostics : List (List UInt8)) (reply : List UInt8)
  /-- It has evaluated a command and has yet to send its reply. -/
  | answering (reply : List UInt8)
deriving DecidableEq, Repr

/-- A connection to one shell. -/
structure Connection where
  /-- The frames that have not been read. -/
  incoming : List (List UInt8)
  /-- The commands that have not been evaluated. -/
  commands : List String
  /-- What the worker is doing. -/
  worker : Worker
  /-- The payloads that have not been sent. -/
  outgoing : List (List UInt8)
  /-- The payloads that were sent. -/
  sent : List (List UInt8)
deriving DecidableEq, Repr

namespace Connection

/-- A connection on which frames will arrive. -/
def ofFrames (frames : List (List UInt8)) : Connection :=
  ⟨frames, [], .free, [], []⟩

/-- Queue a payload to be sent. -/
def post (c : Connection) (payload : List UInt8) : Connection :=
  { c with outgoing := c.outgoing ++ [payload] }

/-- Whether the worker is evaluating. -/
def isEvaluating (c : Connection) : Bool :=
  match c.worker with
  | .evaluating .. => true
  | _ => false

/-- Whether nothing is left to do. -/
def isDone (c : Connection) : Bool :=
  c.incoming = [] && c.commands = [] && c.worker = .free && c.outgoing = []

end Connection

/-- A step of one activity of one connection. -/
inductive Move where
  /-- The reader takes a frame. -/
  | read (connection : Nat)
  /-- The worker starts to evaluate a command, in given surroundings. -/
  | begin (connection : Nat) (w : Surroundings)
  /-- The worker prints. -/
  | print (connection : Nat)
  /-- The worker has evaluated its command and lets others evaluate. -/
  | finish (connection : Nat)
  /-- The worker sends its reply. -/
  | answer (connection : Nat)
  /-- The writer sends a payload. -/
  | write (connection : Nat)

end Host

/-- A host. -/
structure Host where
  /-- The resources it lists. -/
  handles : List Resource.Handle
  /-- The memory of its evaluator. -/
  memory : Script.Memory
  /-- Its connections. -/
  connections : List Host.Connection

namespace Host

open Script (Memory Surroundings)
open Wire (Frame)

/-- A host without connections. -/
def new (handles : List Resource.Handle) (m : Memory) : Host := ⟨handles, m, []⟩

/-- Put a connection at its place. -/
def put (h : Host) (i : Nat) (c : Connection) : Host :=
  { h with connections := h.connections.set i c }

/-- Whether a worker is evaluating. -/
def isEvaluating (h : Host) : Bool :=
  h.connections.any Connection.isEvaluating

/-- The host once the reader of a connection has taken a frame. -/
def receive (h : Host) (i : Nat) (c : Connection) (frame : List UInt8) : Host :=
  match Frame.classify frame with
  | .sentinel .resources => h.put i (c.post (listReply h.handles))
  | .sentinel .interrupt => { h.put i c with memory := h.memory.interrupt }
  | .sentinel .noValue => h.put i c
  | .text command => h.put i { c with commands := c.commands ++ [command] }

/-- The host once a worker has started to evaluate a command. -/
def evaluate (h : Host) (i : Nat) (c : Connection) (w : Surroundings) (command : String) : Host :=
  let r := respond w command h.memory
  { h.put i { c with worker := .evaluating (r.diagnostics.map Text.encode) r.reply } with
    memory := r.memory }

/-- The host after a move, if it can happen. -/
def step? (h : Host) (move : Move) : Option Host :=
  match move with
  | .read i => do
    let c ← h.connections[i]?
    match c.incoming with
    | [] => none
    | frame :: rest => some (h.receive i { c with incoming := rest } frame)
  | .begin i w => do
    let c ← h.connections[i]?
    if h.isEvaluating then none
    match c.worker, c.commands with
    | .free, command :: rest => some (h.evaluate i { c with commands := rest } w command)
    | _, _ => none
  | .print i => do
    let c ← h.connections[i]?
    match c.worker with
    | .evaluating (d :: rest) reply =>
      some (h.put i ({ c with worker := .evaluating rest reply }.post d))
    | _ => none
  | .finish i => do
    let c ← h.connections[i]?
    match c.worker with
    | .evaluating [] reply => some (h.put i { c with worker := .answering reply })
    | _ => none
  | .answer i => do
    let c ← h.connections[i]?
    match c.worker with
    | .answering reply => some (h.put i ({ c with worker := .free }.post reply))
    | _ => none
  | .write i => do
    let c ← h.connections[i]?
    match c.outgoing with
    | [] => none
    | p :: rest => some (h.put i { c with outgoing := rest, sent := c.sent ++ [p] })

/-- The host after moves, if each of them can happen in its turn. -/
def run? (h : Host) : List Move → Option Host
  | [] => some h
  | move :: rest =>
    match h.step? move with
    | some next => next.run? rest
    | none => none

end Host

end RemoteEval
