import RemoteEval.Proofs.Host.Progress
import RemoteEval.Shell.Session

/-!
# What is submitted reaches the host

A line that a session accepts is written as one payload (`Session.written_of_submitWith`), and
fits one receive of a host that receives as much at once as the session counts on. It is evaluated
there once and answered once, unless it is spelled like a control message (`submitWith_delivered`).
Nothing escapes those : a session accepts a control message that is typed like any other line
(`not_all_submitted_delivered`).
-/

namespace RemoteEval.Shell

open Host (Evaluation Shuffle)
open Script (Fault)
open Wire (Frame IsPlain Sentinel)

/-- A text arrives as one frame at a host that receives `capacity` octets at once, and is taken for
itself. Whatever the host was doing on that connection and others, and however it goes on, it can
come to the end of all its work ; and once it has done all there is to do on the connection, the
text was evaluated once, after the commands that waited there before, and what was sent since are
the payloads of these evaluations, with one reply for each, and the lists asked for before. -/
structure Delivered (capacity : Nat) (text : String) : Prop where
  frame : Wire.frames capacity (Text.encode text) = [Text.encode text]
  command : Frame.classify (Text.encode text) = .text text
  finishes : ∀ (h : Host) (i : Nat) (moves : List Host.Move) (next : Host),
    (h.arrive capacity i (Text.encode text)).run? moves = some next →
    ∃ more last, next.run? more = some last ∧ last.isDone = true
  answered : ∀ (h : Host) (i : Nat) (c : Host.Connection), h.connections[i]? = some c →
    ∀ (moves : List Host.Move) (next : Host) (d : Host.Connection),
      (h.arrive capacity i (Text.encode text)).run? moves = some next →
      next.connections[i]? = some d → d.isDone = true →
      ∃ (earlier : List Evaluation) (last : Evaluation),
        earlier.map Evaluation.command = c.awaiting ∧ last.command = text ∧
        ∃ new, d.sent = c.sent ++ c.outgoing ++ new ∧
          Shuffle
            (c.worker.payloads ++ earlier.flatMap (fun e => e.response.payloads) ++
              (last.response.diagnostics.map Text.encode ++ [last.response.reply]))
            (List.replicate (Host.requests c.incoming) (Host.listReply h.handles)) new

/-- A text that fits and is not spelled like a control message is delivered. -/
theorem Delivered.of_isPlain {capacity : Nat} {text : String} (hne : text ≠ "")
    (hfits : Text.octetCount text ≤ capacity) (hplain : IsPlain text) :
    Delivered capacity text := by
  have hframe := Wire.frames_encode hne hfits
  have hcommand := Frame.classify_encode hplain
  refine ⟨hframe, hcommand, fun h i moves next hrun => ?_, ?_⟩
  · obtain ⟨more, last, -, hlast⟩ := Host.exists_done next
    exact ⟨more, last, hlast⟩
  · intro h i c hc moves next d hrun hd hdone
    have harrived := Host.connections_arrive hc capacity (Text.encode text)
    obtain ⟨evaluations, hcommands, new, hsent, hnew⟩ :=
      Host.exists_evaluations_of_run harrived hrun hd hdone
    have hawaiting : evaluations.map Evaluation.command = c.awaiting ++ [text] := by
      rw [← hcommands]
      simp [Host.Connection.awaiting, Host.commandsOf, Host.command?, hcommand, hframe]
    obtain ⟨earlier, later, rfl, hearlier, hlater⟩ := List.map_eq_append_iff.1 hawaiting
    obtain ⟨last, rfl, hlast⟩ := List.map_eq_singleton_iff.1 hlater
    have hrequests : Host.requests (c.incoming ++ Wire.frames capacity (Text.encode text)) =
        Host.requests c.incoming := by
      simp [Host.requests, hframe, hcommand]
    refine ⟨earlier, last, hearlier, hlast, new, hsent, ?_⟩
    simpa [hrequests, Host.Response.payloads] using hnew

/-- What a session accepts fits one receive of the host, and is written in one payload. -/
theorem Session.written_of_submitWith {s next : Session}
    {shadow : String → Except Fault (Option String)} {line : String} {failure : Option String}
    {isOpen : Bool} (h : s.submitWith shadow line failure = (.sent isOpen, next)) :
    Text.octetCount (s.joined line) ≤ s.hostCapacity ∧
      next.written = s.written ++ [Text.encode (s.joined line)] := by
  unfold Session.submitWith Session.start Wire.checkSize at h
  by_cases hfits : s.hostCapacity < Text.octetCount (s.joined line)
  · simp [hfits] at h
  refine ⟨Nat.le_of_not_lt hfits, ?_⟩
  simp only [hfits, if_false] at h
  unfold Session.take at h
  split at h
  · cases h
  · next locked htake =>
    split at htake <;> cases htake
    cases failure with
    | some detail => cases h
    | none =>
      simp only at h
      split at h <;> cases h <;> rfl

/-- Every line that a session accepts is delivered, if the text it becomes is not empty and not
spelled like a control message. -/
theorem submitWith_delivered {s next : Session} {shadow : String → Except Fault (Option String)}
    {line : String} {failure : Option String} {isOpen : Bool}
    (h : s.submitWith shadow line failure = (.sent isOpen, next)) (hne : s.joined line ≠ "")
    (hplain : ∀ sentinel : Sentinel, Text.encode (s.joined line) ≠ sentinel.octets) :
    next.written = s.written ++ [Text.encode (s.joined line)] ∧
      Delivered s.hostCapacity (s.joined line) := by
  obtain ⟨hfits, hwritten⟩ := Session.written_of_submitWith h
  exact ⟨hwritten, .of_isPlain hne hfits (Wire.isPlain_iff.2 hplain)⟩

/-- A session in which a string is open. -/
def openString : Session := { Session.new 4096 8192 with pending := "\"\x06_ASM_\x06" }

/-- A control message inside a string over two lines, with a shadow that rejects everything. -/
theorem submitWith_delivered_string :
    (openString.submitWith (fun _ => .error .interrupted) "\"" none).1 = .sent false ∧
      openString.joined "\"" ≠ "" ∧
      (∀ sentinel : Sentinel, Text.encode (openString.joined "\"") ≠ sentinel.octets) ∧
      Delivered 4096 (openString.joined "\"") := by
  have hsent :
      (openString.submitWith (fun _ => .error .interrupted) "\"" none).1 = .sent false := by
    decide +kernel
  have hplain (sentinel : Sentinel) :
      Text.encode (openString.joined "\"") ≠ sentinel.octets := by
    cases sentinel <;> decide +kernel
  have hne : openString.joined "\"" ≠ "" := by decide
  exact ⟨hsent, hne, hplain, (submitWith_delivered (Prod.ext hsent rfl) hne hplain).2⟩

/-- A control message that is typed at the prompt is accepted as a line, and is not delivered : the
host is done with it without an evaluation and without an answer. -/
theorem not_all_submitted_delivered :
    ∃ line, ((Session.new 4096 8192).submitWith Script.continuation? line none).1 = .sent false ∧
      (Session.new 4096 8192).joined line ≠ "" ∧
      ¬Delivered 4096 ((Session.new 4096 8192).joined line) ∧
      (((Host.new [] .empty).connect.2.arrive 4096 0
        (Text.encode ((Session.new 4096 8192).joined line))).run? [.read 0]).any
          (fun h => h.isDone && decide ((h.connection 0).sent = [])) = true := by
  refine ⟨"\x06_INTERRUPT_\x06", by decide +kernel, by decide, fun h => ?_, by decide +kernel⟩
  exact absurd h.command (by decide +kernel)

end RemoteEval.Shell
