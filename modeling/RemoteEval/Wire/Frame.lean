import RemoteEval.Text.Utf8

/-!
# Frames

What one receive returns is one frame : a text, or one of three control messages that travel
between texts (`Sentinel`), each a tag between two marker octets. `classify` takes only the
exact octets of a control message for one.
-/

namespace RemoteEval.Wire

/-- A control message. -/
inductive Sentinel where
  /-- Asks the host for the resources it has loaded. -/
  | resources
  /-- Asks the host to stop the running command. -/
  | interrupt
  /-- Answers a command that gave no value. -/
  | noValue
deriving DecidableEq, Repr

namespace Sentinel

/-- All control messages. -/
def all : List Sentinel := [resources, interrupt, noValue]

/-- The octet on both sides of a tag. -/
def marker : UInt8 := 0x06

/-- The tag of a control message. -/
def tag : Sentinel → String
  | resources => "_ASM_"
  | interrupt => "_INTERRUPT_"
  | noValue => "_NONO_"

/-- The octets of a control message. -/
def octets (s : Sentinel) : List UInt8 :=
  marker :: Text.encode s.tag ++ [marker]

/-- The control message that octets are, exactly. -/
def ofOctets? (bs : List UInt8) : Option Sentinel :=
  all.find? fun s => s.octets = bs

end Sentinel

/-- What one receive returns. -/
inductive Frame where
  /-- A control message. -/
  | sentinel (s : Sentinel)
  /-- A command or a reply. -/
  | text (t : String)
deriving DecidableEq, Repr

namespace Frame

/-- The frame that octets are : a text unless they are a control message. -/
def classify (bs : List UInt8) : Frame :=
  match Sentinel.ofOctets? bs with
  | some s => .sentinel s
  | none => .text (Text.decode bs)

/-- The octets of a frame. -/
def octets : Frame → List UInt8
  | sentinel s => s.octets
  | text t => Text.encode t

end Frame

/-! ## Errors -/

/-- Why nothing was sent or received. -/
inductive LinkError where
  /-- A payload does not fit one receive of the other side. -/
  | tooLarge (length capacity : Nat)
  /-- The stream failed. -/
  | io (detail : String)
  /-- The other side has closed the connection. -/
  | closed
deriving DecidableEq, Repr

/-- What an error says. -/
def LinkError.message : LinkError → String
  | tooLarge length capacity =>
    "frame of " ++ toString length ++ " bytes exceeds the receiver capacity of " ++
      toString capacity ++ " bytes"
  | io detail => "IO error: " ++ detail
  | closed => "connection closed"

/-- Fail for a payload of more octets than one receive takes. -/
def checkSize (length capacity : Nat) : Except LinkError Unit :=
  if capacity < length then .error (.tooLarge length capacity) else .ok ()

end RemoteEval.Wire
