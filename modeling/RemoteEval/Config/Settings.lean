import RemoteEval.Config.Address
import RemoteEval.Config.Json
import RemoteEval.Text.Utf8

/-!
# Settings

The settings of a shell and of a host. Both are read from an object with named members, of
which unknown ones are passed over and known ones must not be repeated, or from a list of
their values in order ; what is missing has its default.
-/

namespace RemoteEval.Config

/-- The settings of a shell. -/
structure ShellSettings where
  /-- The port of the host. -/
  port : UInt16
  /-- The longest frame that the host receives. -/
  hostCapacity : UInt64
  /-- How many octets the shell receives at once. -/
  clientCapacity : UInt64
  /-- Milliseconds between a reply and the next prompt. -/
  receiveDelay : UInt64
  /-- Parts of identities of resources that are not loaded at startup. -/
  exclusions : List String
deriving DecidableEq, Repr

/-- The settings of a host. -/
structure HostSettings where
  /-- The address at which it listens. -/
  address : Address
  /-- The scripts it loads and lists. -/
  resources : List String
  /-- How many octets it receives at once. -/
  capacity : UInt64
  /-- Milliseconds before it tries again to accept a connection. -/
  retryDelay : UInt64
deriving DecidableEq, Repr

/-- The settings of a shell where nothing is said. -/
def ShellSettings.standard : ShellSettings :=
  ⟨5448, 4096, 8192, 500, ["mscorlib", "System.Core", "Steamworks"]⟩

/-- The settings of a host where nothing is said. -/
def HostSettings.standard : HostSettings :=
  ⟨.v4 ⟨0, 0, 0, 0⟩ 5448, [], 4096, 100⟩

/-! ## Reading fields -/

/-- The values given for some fields, in the order of their names. -/
abbrev Given := List (Option Json)

/-- The value of a member, `some none` if there is none, and nothing if there are several. -/
def member? (fields : List (String × Json)) (name : String) : Option (Option Json) :=
  match fields.filter fun f => f.1 = name with
  | [] => some none
  | [f] => some (some f.2)
  | _ => none

/-- A member whose name is a text. -/
def named? : Name × Json → Option (String × Json)
  | (.text s, v) => some (s, v)
  | (.other _, _) => none

/-- The values given for named fields, by name or by place. Every name must be a text. -/
def fieldValues? (names : List String) : Json → Option Given
  | .members fields => do names.mapM (member? (← fields.mapM named?))
  | .list items =>
    if items.length ≤ names.length then
      some (items.map some ++ List.replicate (names.length - items.length) none)
    else none
  | _ => none

/-- The value of a field, or its default. -/
def orDefault {α : Type} (standard : α) (read : Json → Option α) : Option Json → Option α
  | none => some standard
  | some j => read j

/-- A number of sixteen bits. -/
def toWord16? : Json → Option UInt16
  | .natural n => if n < UInt16.size then some (UInt16.ofNat n) else none
  | _ => none

/-- A number of sixty-four bits. -/
def toWord64? : Json → Option UInt64
  | .natural n => if n < UInt64.size then some (UInt64.ofNat n) else none
  | _ => none

/-- A text. -/
def toText? : Json → Option String
  | .text s => some s
  | _ => none

/-- A list of texts. -/
def toTexts? : Json → Option (List String)
  | .list items => items.mapM toText?
  | _ => none

/-- An address. -/
def toAddress? (j : Json) : Option Address :=
  (toText? j).bind Address.ofText?

/-- A list of texts. -/
def ofTexts (ss : List String) : Json := .list (ss.map .text)

/-! ## Shells -/

namespace ShellSettings

/-- The names of the fields. -/
def names : List String :=
  ["port", "host_recv_capacity", "client_recv_capacity", "receive_delay", "exclusions"]

/-- Read the fields that are given. -/
def ofGiven? : Given → Option ShellSettings
  | [port, hostCapacity, clientCapacity, receiveDelay, exclusions] => do
    return {
      port := ← orDefault standard.port toWord16? port
      hostCapacity := ← orDefault standard.hostCapacity toWord64? hostCapacity
      clientCapacity := ← orDefault standard.clientCapacity toWord64? clientCapacity
      receiveDelay := ← orDefault standard.receiveDelay toWord64? receiveDelay
      exclusions := ← orDefault standard.exclusions toTexts? exclusions }
  | _ => none

/-- Read settings. -/
def read? (s : String) : Option ShellSettings := do
  ofGiven? (← fieldValues? names (← Json.read? s))

/-- The fields of the settings with their names. -/
def toJson (c : ShellSettings) : Json :=
  .ofFields (names.zip [.natural c.port.toNat, .natural c.hostCapacity.toNat,
    .natural c.clientCapacity.toNat, .natural c.receiveDelay.toNat, ofTexts c.exclusions])

/-- Write settings. -/
def write (c : ShellSettings) : String := c.toJson.write

end ShellSettings

/-! ## Hosts -/

/-- Why settings are not read from a file. -/
inductive FileError where
  /-- There is no such file, or it holds no text. -/
  | unreadable
  /-- Its text is no settings. -/
  | malformed
deriving DecidableEq, Repr

namespace HostSettings

/-- The names of the fields. -/
def names : List String := ["addr", "resources", "recv_capacity", "accept_retry_delay"]

/-- Read the fields that are given. -/
def ofGiven? : Given → Option HostSettings
  | [address, resources, capacity, retryDelay] => do
    return {
      address := ← orDefault standard.address toAddress? address
      resources := ← orDefault standard.resources toTexts? resources
      capacity := ← orDefault standard.capacity toWord64? capacity
      retryDelay := ← orDefault standard.retryDelay toWord64? retryDelay }
  | _ => none

/-- Read settings. -/
def read? (s : String) : Option HostSettings := do
  ofGiven? (← fieldValues? names (← Json.read? s))

/-- The fields of the settings with their names. -/
def toJson (c : HostSettings) : Json :=
  .ofFields (names.zip [.text c.address.text, ofTexts c.resources, .natural c.capacity.toNat,
    .natural c.retryDelay.toNat])

/-- Write settings. -/
def write (c : HostSettings) : String := c.toJson.write

/-- Read settings from what a file holds, if there is one. -/
def ofFile (content : Option (List UInt8)) : Except FileError HostSettings :=
  match content.bind Text.decode? with
  | none => .error .unreadable
  | some s =>
    match read? s with
    | none => .error .malformed
    | some c => .ok c

end HostSettings

end RemoteEval.Config
