import RemoteEval.Host.Service
import RemoteEval.Proofs.Host.Turn
import RemoteEval.Proofs.Wire.Frames

/-!
# No answer is lost

A host that serves a single connection owes it what waits to be sent, what its worker has yet to
send, and the answers to the commands that wait to be evaluated (`Connection.owed`). A step pays
some of it, or only moves it on : what was sent and what is owed stay the same together
(`Serving.step`). While anything is owed or unread some step can happen (`Serving.exists_step`).
-/

namespace RemoteEval.Host

open Script (Memory Surroundings)
open Wire (IsPlain)

variable {h next : Host} {c : Connection} {texts : List String}

/-! ## Answers -/

theorem payloadOf_ne_nil (text : String) : payloadOf text ≠ [] := by
  unfold payloadOf
  split
  · simp [Wire.Sentinel.octets]
  · next h => exact fun he => h (Text.encode_eq_nil_iff.1 he)

theorem respond_reply_ne_nil (w : Surroundings) (command : String) (m : Memory) :
    (respond w command m).reply ≠ [] := by
  simp only [respond, reply]
  split <;> exact payloadOf_ne_nil _

theorem exists_mem_answers_ne_nil (m : Memory) {commands : List String} (hne : commands ≠ []) :
    ∃ p ∈ answers m commands, p ≠ [] := by
  cases commands with
  | nil => exact (hne rfl).elim
  | cons command rest =>
    refine ⟨(respond .quiet command m).reply, ?_, respond_reply_ne_nil _ _ _⟩
    simp [answers, Response.payloads]

/-! ## What is owed -/

/-- What a worker has yet to send for the command it has taken. -/
def Worker.payloads : Worker → List (List UInt8)
  | .free => []
  | .evaluating diagnostics reply => diagnostics ++ [reply]
  | .answering reply => [reply]

/-- What a connection will have sent once it has answered its commands and then `texts`. -/
def Connection.owed (c : Connection) (m : Memory) (texts : List String) : List (List UInt8) :=
  c.outgoing ++ c.worker.payloads ++ answers m (c.commands ++ texts)

/-- A host serves a single connection, on which `texts` wait to be read. -/
structure Serving (h : Host) (c : Connection) (texts : List String) : Prop where
  /-- There is no other connection. -/
  alone : h.connections = [c]
  /-- The texts wait, each in a frame. -/
  incoming : c.incoming = texts.map Text.encode
  /-- None of them is taken for a control message. -/
  plain : ∀ t ∈ texts, IsPlain t

/-- What a step does that nobody disturbs : it reads a text, takes a command, prints, finishes,
answers, or sends a payload. -/
inductive Advance (m : Memory) (c : Connection) : (texts : List String) →
    (sent : List (List UInt8)) → Memory → Connection → List String → Prop where
  | read {t : String} {texts : List String} : Advance m c (t :: texts) [] m
      { c with incoming := texts.map Text.encode, commands := c.commands ++ [t] } texts
  | begin {command : String} {rest texts : List String} (hw : c.worker = .free)
      (hc : c.commands = command :: rest) :
      Advance m c texts [] (respond .quiet command m).memory
        { c with
          commands := rest
          worker := .evaluating ((respond .quiet command m).diagnostics.map Text.encode)
            (respond .quiet command m).reply } texts
  | print {d reply : List UInt8} {rest : List (List UInt8)} {texts : List String}
      (hw : c.worker = .evaluating (d :: rest) reply) :
      Advance m c texts [] m ({ c with worker := .evaluating rest reply }.post d) texts
  | finish {reply : List UInt8} {texts : List String} (hw : c.worker = .evaluating [] reply) :
      Advance m c texts [] m { c with worker := .answering reply } texts
  | answer {reply : List UInt8} {texts : List String} (hw : c.worker = .answering reply) :
      Advance m c texts [] m ({ c with worker := .free }.post reply) texts
  | write {p : List UInt8} {rest : List (List UInt8)} {texts : List String}
      (ho : c.outgoing = p :: rest) :
      Advance m c texts [p] m { c with outgoing := rest, sent := c.sent ++ [p] } texts

theorem Serving.eq_of_getElem? (hs : Serving h c texts) {i : Nat} {d : Connection}
    (hd : h.connections[i]? = some d) : i = 0 ∧ d = c := by
  rw [hs.alone] at hd
  cases i with
  | zero => exact ⟨rfl, (Option.some.inj hd).symm⟩
  | succ i => simp at hd

theorem Serving.put (hs : Serving h c texts) (d : Connection) : (h.put 0 d).connections = [d] := by
  simp [Host.put, hs.alone]

theorem Serving.put_serving (hs : Serving h c texts) {d : Connection} (m : Memory)
    (hd : d.incoming = c.incoming) : Serving { h.put 0 d with memory := m } d texts :=
  ⟨hs.put d, hd.trans hs.incoming, hs.plain⟩

/-- What is read is the next text, as a command. -/
theorem Serving.incoming_eq_cons (hs : Serving h c texts) {frame : List UInt8}
    {rest : List (List UInt8)} (hin : c.incoming = frame :: rest) :
    ∃ t texts', texts = t :: texts' ∧ rest = texts'.map Text.encode ∧
      Wire.Frame.classify frame = .text t := by
  rw [hs.incoming] at hin
  obtain ⟨t, texts', rfl, rfl, rfl⟩ := List.map_eq_cons_iff.1 hin
  exact ⟨t, texts', rfl, rfl, Wire.Frame.classify_encode (hs.plain t (by simp))⟩

/-! ## One step -/

/-- Nobody is disturbed, so that each step is an advance of the single connection. -/
theorem Serving.step {move : Move} (hs : Serving h c texts) (hq : move.IsQuiet)
    (hstep : h.step? move = some next) :
    ∃ sent c' texts', Advance h.memory c texts sent next.memory c' texts' ∧
      Serving next c' texts' ∧ Prod.Lex (· < ·) (Prod.Lex (· < ·) (· < ·)) c'.work c.work := by
  obtain ⟨d, m, c', hd, ht, rfl⟩ := exists_turn hstep
  obtain ⟨hplace, rfl⟩ := hs.eq_of_getElem? hd
  rw [hplace]
  have hwork := ht.work_lt
  cases ht with
  | list hin hf | interrupt hin hf | stray hin hf =>
    obtain ⟨t, texts', -, -, ht⟩ := hs.incoming_eq_cons hin
    rw [ht] at hf
    cases hf
  | command hin hf =>
    obtain ⟨t, texts', rfl, rfl, ht⟩ := hs.incoming_eq_cons hin
    rw [ht] at hf
    cases hf
    exact ⟨_, _, _, .read, ⟨hs.put _, rfl, fun u hu => hs.plain u (by simp [hu])⟩, hwork⟩
  | @begin i w t rest hb hw hc =>
    obtain rfl : w = .quiet := hq
    exact ⟨_, _, _, .begin hw hc, hs.put_serving _ rfl, hwork⟩
  | print hw => exact ⟨_, _, _, .print hw, hs.put_serving _ rfl, hwork⟩
  | finish hw => exact ⟨_, _, _, .finish hw, hs.put_serving _ rfl, hwork⟩
  | answer hw => exact ⟨_, _, _, .answer hw, hs.put_serving _ rfl, hwork⟩
  | write ho => exact ⟨_, _, _, .write ho, hs.put_serving _ rfl, hwork⟩

/-! ## What an advance changes -/

section Advance

variable {m m' : Memory} {c' : Connection} {texts' : List String} {sent : List (List UInt8)}

theorem Advance.sent_eq (ha : Advance m c texts sent m' c' texts') : c'.sent = c.sent ++ sent := by
  cases ha <;> simp [Connection.post]

/-- What is sent is no longer owed, and nothing else changes hands. -/
theorem Advance.owed (ha : Advance m c texts sent m' c' texts') (later : List String) :
    sent ++ c'.owed m' (texts' ++ later) = c.owed m (texts ++ later) := by
  cases ha with
  | read => simp [Connection.owed]
  | begin hw hc =>
    simp [Connection.owed, Worker.payloads, hw, hc, answers, Response.payloads]
  | print hw => simp [Connection.owed, Connection.post, Worker.payloads, hw]
  | finish hw => simp [Connection.owed, Worker.payloads, hw]
  | answer hw => simp [Connection.owed, Connection.post, Worker.payloads, hw]
  | write ho => simp [Connection.owed, ho]

end Advance

/-! ## Going on -/

/-- Unless a connection has done all it has to do, some step can happen. -/
theorem Serving.exists_step (hs : Serving h c texts) (hd : c.isDone = false) :
    ∃ move : Move, move.IsQuiet ∧ (h.step? move).isSome := by
  refine Host.exists_step ?_
  rw [Host.isDone, hs.alone, List.all_cons, hd, Bool.false_and]

theorem Serving.owed_eq_nil (hs : Serving h c texts) (hd : c.isDone = true) (m : Memory)
    (later : List String) : c.owed m (texts ++ later) = answers m later := by
  simp only [Connection.isDone, Bool.and_eq_true, decide_eq_true_eq] at hd
  obtain ⟨⟨⟨hin, hc⟩, hw⟩, ho⟩ := hd
  have htexts : texts = [] := by
    simpa [hs.incoming] using hin
  simp [Connection.owed, hc, hw, ho, htexts, Worker.payloads]

theorem exists_owed_ne_nil (c : Connection) (m : Memory) (hne : texts ≠ []) :
    ∃ p ∈ c.owed m texts, p ≠ [] := by
  obtain ⟨p, hp, hne⟩ :=
    exists_mem_answers_ne_nil m (List.append_ne_nil_of_right_ne_nil c.commands hne)
  exact ⟨p, by simp [Connection.owed, hp], hne⟩

theorem Serving.connection (hs : Serving h c texts) : h.connection 0 = c := by
  simp [Host.connection, hs.alone]

@[simp]
theorem arrive_memory (capacity i : Nat) (payload : List UInt8) (h : Host) :
    (h.arrive capacity i payload).memory = h.memory := rfl

/-- A text that fits arrives in one frame. -/
theorem Serving.arrive {capacity : Nat} {t : String} (hs : Serving h c texts) (hne : t ≠ "")
    (hle : Text.octetCount t ≤ capacity) (hp : IsPlain t) :
    Serving (h.arrive capacity 0 (Text.encode t))
      { c with incoming := c.incoming ++ [Text.encode t] } (texts ++ [t]) := by
  rw [Host.arrive, hs.connection, Wire.frames_encode hne hle]
  refine ⟨hs.put _, by simp [hs.incoming], ?_⟩
  simp only [List.mem_append, List.mem_singleton]
  rintro u (hu | rfl)
  · exact hs.plain u hu
  · exact hp

end RemoteEval.Host
