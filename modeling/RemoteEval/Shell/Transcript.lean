import RemoteEval.Host.Response
import RemoteEval.Shell.Prompt

/-!
# What a session amounts to

The lines that are read at a prompt, whatever the other side does with them, determine the texts
that are sent (`sendable`) ; and the payloads that answer these (`Host.answers`) determine the
octets that are printed (`printouts`), and in how many frames each text is answered (`frameCounts`).
-/

namespace RemoteEval.Shell

/-- A line that the prompt passes over or ends with, or one that it submits. -/
inductive LineKind where
  /-- Nothing but blanks. -/
  | blank
  /-- A word that ends the session. -/
  | quit
  /-- Anything else. -/
  | command
deriving DecidableEq, Repr

/-- What the prompt makes of a line. -/
def LineKind.of (line : String) : LineKind :=
  let trimmed := String.ofList (Text.trim line.toList)
  if trimmed = "" then .blank
  else if trimmed ∈ quitWords then .quit
  else .command

/-- A line behind the lines of a statement that is still open. -/
def continued (pending line : String) : String :=
  if pending = "" then line else pending ++ "\n" ++ line

/-- What stays open once a text was sent : all of it or nothing. -/
def leftOpen (text : String) : String :=
  match Script.parse text.toList with
  | .error .incomplete => text
  | _ => ""

/-- The texts that lines become. A text of more octets than `capacity` is not sent, and leaves open
what was open before. -/
def sendable (capacity : Nat) : (pending : String) → (lines : List String) → List String
  | _, [] => []
  | pending, line :: rest =>
    match LineKind.of line with
    | .blank => sendable capacity pending rest
    | .quit => []
    | .command =>
      if capacity < Text.octetCount (continued pending line) then sendable capacity pending rest
      else
        continued pending line ::
          sendable capacity (leftOpen (continued pending line)) rest

/-- What a receiver prints that receives payloads of which it takes `capacity` octets at once. -/
def printouts (capacity : Nat) (payloads : List (List UInt8)) : List UInt8 :=
  (payloads.flatMap (Wire.frames capacity)).flatMap Session.printout

/-- In how many frames each of some texts is answered by an evaluator that evaluates them in turn,
if `capacity` octets are received at once. -/
def frameCounts (capacity : Nat) : Script.Memory → List String → List Nat
  | _, [] => []
  | m, t :: rest =>
    let r := Host.respond .quiet t m
    (r.payloads.flatMap (Wire.frames capacity)).length :: frameCounts capacity r.memory rest

end RemoteEval.Shell
