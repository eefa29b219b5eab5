import RemoteEval.Wire.Frame

/-!
# Streams

A payload is written in one go and received in frames of at most the receiver's capacity
(`frames`), and no frame spans two payloads. `readAll` reads a stream to its end, an `Outlet`
is the other end of a stream that is written to.
-/

namespace RemoteEval.Wire

/-! ## Receiving -/

/-- How many octets one receive takes at most : never none. -/
def receiveSize (capacity : Nat) : Nat := max capacity 1

/-- The frames in which octets arrive. -/
def frames (capacity : Nat) (bs : List UInt8) : List (List UInt8) :=
  if bs = [] then []
  else bs.take (receiveSize capacity) :: frames capacity (bs.drop (receiveSize capacity))
termination_by bs.length
decreasing_by
  have := List.length_pos_iff.2 ‹¬bs = []›
  simp only [List.length_drop, receiveSize]
  omega

/-- What becomes available on a stream. -/
inductive Arrival where
  /-- The octets of one payload. -/
  | payload (bs : List UInt8)
  /-- A failure of the stream. -/
  | failure (detail : String)
deriving DecidableEq, Repr

/-- How reading a stream ends. -/
inductive Ending where
  /-- The stream was closed. -/
  | closed
  /-- The stream failed. -/
  | failed (e : LinkError)
deriving DecidableEq, Repr

/-- Read a stream to its end. A receive of no octets is the end of the stream. -/
def readAll (capacity : Nat) : List Arrival → List (List UInt8) × Ending
  | [] => ([], .closed)
  | .failure detail :: _ => ([], .failed (.io detail))
  | .payload bs :: rest =>
    if bs = [] then ([], .closed)
    else
      let (more, ending) := readAll capacity rest
      (frames capacity bs ++ more, ending)

/-! ## Sending -/

/-- What the other end of a stream sees. -/
inductive Sight where
  /-- An octet. -/
  | octet (b : UInt8)
  /-- All octets so far are to be delivered. -/
  | flush
  /-- No more octets follow. -/
  | shutdown
deriving DecidableEq, Repr

/-- The other end of a stream that is written to. -/
structure Outlet where
  /-- How many octets it still takes. -/
  room : Nat
  /-- How many octets it takes in one write. -/
  stride : Nat
  /-- What it has seen. -/
  seen : List Sight
deriving DecidableEq, Repr

namespace Outlet

/-- What a write says that can take nothing. -/
def writeZero : LinkError := .io "write zero"

/-- How many of some octets it takes, write after write. -/
def takes (o : Outlet) (bs : List UInt8) : Nat :=
  if o.stride = 0 then 0 else min o.room bs.length

/-- Write a payload and flush it. Octets taken before a write fails stay written. -/
def send (o : Outlet) (bs : List UInt8) : Option LinkError × Outlet :=
  let n := o.takes bs
  let seen := o.seen ++ (bs.take n).map .octet
  if n < bs.length then (some writeZero, { o with room := o.room - n, seen })
  else (none, { o with room := o.room - n, seen := seen ++ [.flush] })

/-- Send a control message. -/
def sendSentinel (o : Outlet) (s : Sentinel) : Option LinkError × Outlet :=
  o.send s.octets

/-- Send a text. -/
def sendText (o : Outlet) (t : String) : Option LinkError × Outlet :=
  o.send (Text.encode t)

/-- Send nothing any more. -/
def shutdown (o : Outlet) : Outlet :=
  { o with seen := o.seen ++ [.shutdown] }

end Outlet

end RemoteEval.Wire
