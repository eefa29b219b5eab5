import RemoteEval.Config.Address
import RemoteEval.Host.Service

/-!
# The network between shells and hosts

On some networks no connection comes about : every attempt fails, and a client that waits for
an answer waits in vain. `Network.connect` is an attempt to reach an address, and
`Network.visitAll` what clients of a host hear that come one after another.
-/

namespace RemoteEval

open Config (Address)

/-- Whether connections come about. -/
inductive Network where
  /-- They do, where somebody listens. -/
  | connected
  /-- They do not. -/
  | isolated
deriving DecidableEq, Repr

/-- Why a connection does not come about. -/
inductive ConnectCause where
  /-- The address has no port. -/
  | invalidAddress
  /-- The port is none. -/
  | invalidPort
  /-- The host holds a character that no name holds. -/
  | invalidHost
  /-- Nobody knows the host. -/
  | unknownHost
  /-- Nobody can be asked about the host. -/
  | unanswered
  /-- Nobody listens. -/
  | refused
  /-- The network leads nowhere. -/
  | unreachable
deriving DecidableEq, Repr

/-- What a cause says. -/
def ConnectCause.message : ConnectCause → String
  | invalidAddress => "invalid socket address"
  | invalidPort => "invalid port value"
  | invalidHost => "file name contained an unexpected NUL byte"
  | unknownHost => "failed to lookup address information: Name or service not known"
  | unanswered =>
    "failed to lookup address information: Temporary failure in name resolution"
  | refused => "Connection refused (os error 111)"
  | unreachable => "Network is unreachable (os error 101)"

/-- A connection that did not come about. -/
structure ConnectError where
  /-- The address as it was given. -/
  address : String
  /-- What went wrong. -/
  cause : ConnectCause
deriving DecidableEq, Repr

/-- What an error says. -/
def ConnectError.message (e : ConnectError) : String :=
  "connection to " ++ e.address ++ " failed: " ++ e.cause.message

/-- A text without its part behind the last colon, and that part. -/
def splitAtLastColon? (cs : List Char) : Option (List Char × List Char) :=
  match cs.reverse.dropWhile (· ≠ ':') with
  | [] => none
  | _ :: front => some (front.reverse, cs.drop (front.length + 1))

/-- A port as a number, perhaps with a plus sign. -/
def portNumber? (cs : List Char) : Option UInt16 :=
  let digits := if cs.head? = some '+' then cs.drop 1 else cs
  match Config.number? 10 65536 digits with
  | some (n, []) => some (UInt16.ofNat n)
  | _ => none

/-- What a text means : an address, or a host that has to be looked up and a port. -/
inductive Target where
  /-- An address. -/
  | address (a : Address)
  /-- A host by its name. -/
  | named (host : List Char) (port : UInt16)
deriving DecidableEq, Repr

/-- The address of a host that is written in numbers. -/
def numericHost? (host : List Char) (port : UInt16) : Option Address :=
  match Config.shortOctets? host, Config.groups? host with
  | some (o, []), _ => some (.v4 o port)
  | _, some (g, rest) =>
    match Config.zone? rest with
    | some (zone, []) => some (.v6 g zone port)
    | _ => none
  | _, none => none

/-- The target of a host and a port. -/
def targetOf (host : List Char) (port : UInt16) : Except ConnectCause Target :=
  if host.contains '\x00' then .error .invalidHost
  else
    match numericHost? host port with
    | some a => .ok (.address a)
    | none => .ok (.named host port)

/-- What a text means : an address as it stands, or a host and a port. -/
def target (address : String) : Except ConnectCause Target :=
  match Address.ofText? address with
  | some a => .ok (.address a)
  | none =>
    match splitAtLastColon? address.toList with
    | none => .error .invalidAddress
    | some (host, port) =>
      match portNumber? port with
      | none => .error .invalidPort
      | some n => targetOf host n

/-- The name by which every machine knows itself. -/
def ownName : List Char := "localhost".toList

/-- The address of a machine for itself. -/
def loopback (port : UInt16) : Address := .v4 ⟨127, 0, 0, 1⟩ port

namespace Network

/-- Look a target up. A machine knows its own name, and has to ask about others. -/
def lookUp (net : Network) : Target → Except ConnectCause Address
  | .address a => .ok a
  | .named host port =>
    if host.map Char.toLower = ownName then .ok (loopback port)
    else
      match net with
      | isolated => .error .unanswered
      | connected => .error .unknownHost

/-- Reach an address, where `listening` says at which somebody listens. -/
def reach (net : Network) (listening : Address → Bool) (a : Address) :
    Except ConnectCause Address :=
  match net with
  | isolated => .error .unreachable
  | connected => if listening a then .ok a else .error .refused

/-- Connect to what a text means. -/
def connect (net : Network) (listening : Address → Bool) (address : String) :
    Except ConnectError Address :=
  match target address with
  | .error cause => .error ⟨address, cause⟩
  | .ok t =>
    match net.lookUp t with
    | .error cause => .error ⟨address, cause⟩
    | .ok a =>
      match net.reach listening a with
      | .error cause => .error ⟨address, cause⟩
      | .ok a => .ok a

/-- A client of a host : what it sends, and when it asks to stop what it sent. -/
structure Client where
  /-- What it sends in one write. -/
  payload : List UInt8
  /-- When the evaluation of its command is asked to stop. -/
  surroundings : Script.Surroundings

/-- What clients hear that visit a host one after another : everything sent to each, or nothing
at all where no connection comes about. -/
def visitAll (net : Network) (capacity : Nat) : List Client → Host → List (Option String)
  | [], _ => []
  | c :: rest, h =>
    match net with
    | isolated => none :: visitAll net capacity rest h
    | connected =>
      let (payloads, h) := h.visit capacity c.surroundings c.payload
      some (Text.decode payloads.flatten) :: visitAll net capacity rest h

end Network

end RemoteEval
