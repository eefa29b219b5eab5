import RemoteEval.Host.Connection

/-!
# Serving one connection at a time

A host that serves a connection by itself reads all that has arrived, evaluates the commands in
order and sends what there is to send. `Host.visit` serves a client from its first octet to its
last, `Host.hear` lets a client that stays hear the payloads that answer one of its own.
-/

namespace RemoteEval.Host

open Script (Surroundings)

/-- Repeat a move until it cannot happen, at most `limit` times. -/
def repeatMove (move : Move) : (limit : Nat) → Host → Host
  | 0, h => h
  | limit + 1, h =>
    match h.step? move with
    | some next => repeatMove move limit next
    | none => h

/-- A connection of a host, or one without anything to do. -/
def connection (h : Host) (i : Nat) : Connection :=
  h.connections[i]?.getD (.ofFrames [])

/-- How much the worker of a connection has to print. -/
def unprinted (h : Host) (i : Nat) : Nat :=
  match (h.connection i).worker with
  | .evaluating diagnostics _ => diagnostics.length
  | _ => 0

/-- Evaluate the next command of a connection to its reply. -/
def workOnce (w : Surroundings) (i : Nat) (h : Host) : Host :=
  let h := repeatMove (.begin i w) 1 h
  let h := repeatMove (.print i) (h.unprinted i) h
  repeatMove (.answer i) 1 (repeatMove (.finish i) 1 h)

/-- Evaluate some commands of a connection. -/
def work (w : Surroundings) (i : Nat) : (commands : Nat) → Host → Host
  | 0, h => h
  | commands + 1, h => work w i commands (workOnce w i h)

/-- Do all there is to do on a connection. -/
def serve (w : Surroundings) (i : Nat) (h : Host) : Host :=
  let h := repeatMove (.read i) (h.connection i).incoming.length h
  let h := work w i (h.connection i).commands.length h
  repeatMove (.write i) (h.connection i).outgoing.length h

/-- Connect a client. -/
def connect (h : Host) : Nat × Host :=
  (h.connections.length, { h with connections := h.connections ++ [.ofFrames []] })

/-- A payload arrives on a connection. -/
def arrive (capacity i : Nat) (payload : List UInt8) (h : Host) : Host :=
  let c := h.connection i
  h.put i { c with incoming := c.incoming ++ Wire.frames capacity payload }

/-- Serve a payload on a connection, and tell what was sent in answer. -/
def hear (capacity : Nat) (w : Surroundings) (i : Nat) (payload : List UInt8) (h : Host) :
    List (List UInt8) × Host :=
  let before := (h.connection i).sent.length
  let h := serve w i (arrive capacity i payload h)
  ((h.connection i).sent.drop before, h)

/-- Serve a client that connects, sends a payload and hears what is sent in answer. -/
def visit (capacity : Nat) (w : Surroundings) (payload : List UInt8) (h : Host) :
    List (List UInt8) × Host :=
  let (i, h) := h.connect
  hear capacity w i payload h

end RemoteEval.Host
