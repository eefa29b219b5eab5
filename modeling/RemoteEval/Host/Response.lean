import RemoteEval.Resource.Order
import RemoteEval.Script.Evaluator
import RemoteEval.Wire.Frame
import RemoteEval.Wire.ResourceList

/-!
# What a host answers

A command is evaluated and its value rendered ; what it printed on the way and one reply are
sent back (`respond`, and `answers` for one command after another). A reply without text is sent
as the control message that says so, because a payload without octets never arrives. The same
holds of a list of resources (`listReply`).
-/

namespace RemoteEval.Host

open Script (Fault Memory Outcome Run Surroundings)
open Wire (Sentinel)

/-- What a command leads to. -/
structure Response where
  /-- What it printed, in order. -/
  diagnostics : List String
  /-- The payload of its reply. -/
  reply : List UInt8
  /-- What the evaluator keeps. -/
  memory : Memory

/-- The payload of a text, or of the control message for no text. -/
def payloadOf (text : String) : List UInt8 :=
  if text = "" then Sentinel.noValue.octets else Text.encode text

/-- The payload of a result : its text, or what is said of its fault. -/
def reply : Except Fault String → List UInt8
  | .ok text => payloadOf text
  | .error f => payloadOf f.report

/-- Render the value of an evaluation, in the same surroundings. Without a value there is no
text. -/
def renderOutcome (w : Surroundings) : Except Fault Outcome × Run → Except Fault String × Run
  | (.error f, r) => (.error f, r)
  | (.ok o, r) =>
    match o.value with
    | none => (.ok "", r)
    | some v => Script.Action.render w v r

/-- Evaluate a command and render its value. -/
def respond (w : Surroundings) (command : String) (m : Memory) : Response :=
  let (text, r) := renderOutcome w (Script.evaluate w command m)
  ⟨r.messages, reply text, r.memory⟩

/-- All payloads of a response, in order. -/
def Response.payloads (r : Response) : List (List UInt8) :=
  r.diagnostics.map Text.encode ++ [r.reply]

/-- The payloads that answer commands which one evaluator evaluates in turn. -/
def answers : Memory → List String → List (List UInt8)
  | _, [] => []
  | m, command :: rest =>
    let r := respond .quiet command m
    r.payloads ++ answers r.memory rest

/-- The resources in the order in which they are loaded, as one payload. -/
def listReply (handles : List Resource.Handle) : List UInt8 :=
  match Resource.loadOrder handles with
  | [] => Sentinel.noValue.octets
  | ordered => Text.encode (Wire.joinIdentities (ordered.map Resource.Handle.identity))

end RemoteEval.Host
