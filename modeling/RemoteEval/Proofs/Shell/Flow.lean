import Mathlib.Algebra.Order.Ring.Nat
import RemoteEval.Proofs.Shell.Accounts

/-!
# How far a prompt is ahead

The prompt sends its next text once the lock was given back, and the receiver gives the lock back
for each frame. So what the prompt waits for is one frame for each text that was sent before
(`Flow.bound`), and no more. Every step keeps to this (`Flow.stride`).
-/

namespace RemoteEval.Shell

open Host (Connection Serving)
open Script (Memory)

variable {c k : Nat} {m : Memory} {texts lines unwritten waiting : List String} {b next : Bridge}
  {conn : Connection}

/-! ## In how many frames texts are answered -/

theorem sum_frameCounts (k : Nat) (m : Memory) (texts : List String) :
    (frameCounts k m texts).sum = ((Host.answers m texts).flatMap (Wire.frames k)).length := by
  induction texts generalizing m with
  | nil => rfl
  | cons t texts ih => simp [frameCounts, Host.answers, ih]

@[simp]
theorem length_frameCounts (k : Nat) (m : Memory) (texts : List String) :
    (frameCounts k m texts).length = texts.length := by
  induction texts generalizing m with
  | nil => rfl
  | cons t texts ih => simp [frameCounts, ih]

theorem frameCounts_take (k : Nat) (m : Memory) (texts : List String) (n : Nat) :
    frameCounts k m (texts.take n) = (frameCounts k m texts).take n := by
  induction texts generalizing m n with
  | nil => simp [frameCounts]
  | cons t texts ih =>
    cases n with
    | zero => rfl
    | succ n => simp [frameCounts, ih]

theorem sum_frameCounts_succ {w n : Nat} (h : (frameCounts k m texts)[w]? = some n) :
    (frameCounts k m (texts.take (w + 1))).sum = (frameCounts k m (texts.take w)).sum + n := by
  obtain ⟨hlt, rfl⟩ := List.getElem?_eq_some_iff.1 h
  rw [frameCounts_take, frameCounts_take, List.take_succ_eq_append_getElem hlt, List.sum_append,
    List.sum_singleton]

/-- A reply holds some octets, and so arrives. -/
theorem one_le_of_mem_frameCounts {n : Nat} (h : n ∈ frameCounts k m texts) : 1 ≤ n := by
  induction texts generalizing m with
  | nil => cases h
  | cons t texts ih =>
    rcases List.mem_cons.1 h with rfl | h
    · have hne := Host.respond_reply_ne_nil .quiet t m
      have hframes := mt (@Wire.frames_eq_nil_iff k _).1 hne
      have hlength := List.length_pos_iff.2 hframes
      simp only [Host.Response.payloads, List.flatMap_append, List.flatMap_cons, List.flatMap_nil,
        List.append_nil, List.length_append]
      omega
    · exact ih h

/-! ## What is to come -/

namespace Bridge

/-- The connection of the host that serves the session. -/
def served (b : Bridge) : Connection :=
  b.other.connection b.connection

/-- The texts that were written. -/
def sentTexts (b : Bridge) : List String :=
  b.session.written.map Text.decode

theorem length_sentTexts (b : Bridge) : b.sentTexts.length = b.session.written.length :=
  List.length_map _

/-- What the host will have sent once it has answered everything that was written, and then
`later`. -/
def owed (b : Bridge) (later : List String) : List (List UInt8) :=
  b.served.owed b.other.memory (b.served.incoming.map Text.decode ++ later)

/-- How many frames the receiver has yet to receive in answer to what was written. -/
def coming (k : Nat) (b : Bridge) : Nat :=
  b.session.inbox.length + ((b.owed []).flatMap (Wire.frames k)).length

end Bridge

/-- Whether a text is sent for which the lock was taken. -/
def Submission.ahead : Submission → Nat
  | .locked _ => 1
  | _ => 0

/-- Whether the lock is taken. -/
def Lock.held : Lock → Nat
  | .busy => 1
  | _ => 0

theorem Lock.held_le (l : Lock) : l.held ≤ 1 := by
  cases l <;> simp [Lock.held]

/-- Whether the receiver has a frame for which it has not given the lock back. -/
def Receiver.inHand : Receiver → Nat
  | .holding _ | .printed => 1
  | _ => 0

theorem Account.served_eq (ha : Account c k m texts b lines unwritten waiting conn) :
    b.served = conn := by
  rw [Bridge.served, ha.connection, ha.serving.connection]

theorem map_decode_encode (texts : List String) :
    (texts.map Text.encode).map Text.decode = texts := by
  simp [Function.comp_def, Text.decode_encode]

theorem Account.owed_eq (ha : Account c k m texts b lines unwritten waiting conn)
    (later : List String) : b.owed later = conn.owed b.other.memory (waiting ++ later) := by
  rw [Bridge.owed, ha.served_eq, ha.serving.incoming, map_decode_encode]

theorem Account.texts_eq (ha : Account c k m texts b lines unwritten waiting conn) :
    texts = b.sentTexts ++ unwritten := by
  obtain ⟨before, htexts, hwritten⟩ := ha.written
  rw [Bridge.sentTexts, hwritten, map_decode_encode, htexts]

theorem Account.sentTexts_eq_take (ha : Account c k m texts b lines unwritten waiting conn) :
    b.sentTexts = texts.take b.session.written.length := by
  rw [ha.texts_eq, ← b.length_sentTexts, List.take_left]

theorem Account.sentTexts_append (ha : Account c k m texts b lines unwritten waiting conn)
    {text : String} (hs : b.session.submission = .locked text) :
    b.sentTexts ++ [text] = texts.take (b.session.written.length + 1) := by
  obtain rfl := (hs ▸ ha.prompting).of_locked
  rw [ha.texts_eq, ← b.length_sentTexts, List.take_length_add_append]
  rfl

theorem Account.unwritten_ne_nil (ha : Account c k m texts b lines unwritten waiting conn)
    (h : b.session.written.length < texts.length) : unwritten ≠ [] := by
  rintro rfl
  rw [ha.texts_eq, List.append_nil, b.length_sentTexts] at h
  exact Nat.lt_irrefl _ h

theorem Account.written_lt (ha : Account c k m texts b lines unwritten waiting conn)
    {text : String} (hs : b.session.submission = .locked text) :
    b.session.written.length < texts.length := by
  obtain rfl := (hs ▸ ha.prompting).of_locked
  rw [ha.texts_eq, List.length_append, List.length_cons, b.length_sentTexts]
  omega

/-- What was sent and what is owed answer what was written, and the prompt is at most one text ahead
of the frames for which the receiver has given the lock back. -/
structure Flow (k : Nat) (m : Memory) (b : Bridge) : Prop where
  /-- What answers the texts is sent or owed. -/
  answered : ∀ later, b.served.sent ++ b.owed later = Host.answers m (b.sentTexts ++ later)
  /-- What the host is about to send ends with a reply, which arrives. -/
  ends : ∀ p, (b.served.outgoing ++ b.served.worker.payloads).getLast? = some p → p ≠ []
  /-- A text is read, and its size checked, while the lock is free. -/
  free : b.phase = .reading ∨ (∃ text, b.session.submission = .sized text) →
    b.session.lock ≠ .busy
  /-- Texts sent and frames to come are no more than all the frames that answer the texts, but for
  the text for which the lock is taken. -/
  bound : b.sentTexts.length + b.session.submission.ahead + b.session.receiver.inHand +
    b.coming k ≤ (frameCounts k m b.sentTexts).sum + b.session.lock.held

/-! ## One step -/

/-- Reading a line neither writes nor takes the lock, and nothing is waited for. -/
theorem Account.read_same (ha : Account c k m texts b lines unwritten waiting conn)
    (hp : b.phase = .reading) :
    b.read.other = b.other ∧ b.read.connection = b.connection ∧ b.read.phase ≠ .waiting ∧
      ∃ submission, b.read.session = { b.session with submission } ∧
        (submission = .none ∨ ∃ text, submission = .sized text) := by
  have hprompting := ha.prompting
  rw [hp] at hprompting
  obtain ⟨hs, -⟩ := hprompting.of_reading
  rw [← hs]
  exact Bridge.read_same hp ha.entries

theorem coming_of_same (ho : next.other = b.other) (hc : next.connection = b.connection)
    (hin : next.session.inbox = b.session.inbox) : next.coming k = b.coming k := by
  simp only [Bridge.coming, Bridge.owed, Bridge.served, ho, hc, hin]

/-- Where neither side has written, only the lock and the receiver count. -/
theorem Flow.of_same (hf : Flow k m b) (ho : next.other = b.other)
    (hc : next.connection = b.connection) (hw : next.session.written = b.session.written)
    (hfree : next.phase = .reading ∨ (∃ text, next.session.submission = .sized text) →
      next.session.lock ≠ .busy)
    (hcount : next.session.submission.ahead + next.session.receiver.inHand +
        next.session.inbox.length + b.session.lock.held ≤
      b.session.submission.ahead + b.session.receiver.inHand + b.session.inbox.length +
        next.session.lock.held) : Flow k m next := by
  have hserved : next.served = b.served := by rw [Bridge.served, ho, hc, Bridge.served]
  have howed : next.owed = b.owed := by
    funext later
    rw [Bridge.owed, hserved, ho, Bridge.owed]
  have hsent : next.sentTexts = b.sentTexts := by rw [Bridge.sentTexts, hw, Bridge.sentTexts]
  refine ⟨?_, ?_, hfree, ?_⟩
  · rw [hserved, howed, hsent]
    exact hf.answered
  · rw [hserved]
    exact hf.ends
  · have hbound := hf.bound
    simp only [Bridge.coming, hsent, howed] at hbound ⊢
    omega

/-- What a connection is about to send goes on ending with a reply. -/
theorem ends_of_advance {m m' : Memory} {c c' : Connection} {texts texts' : List String}
    {sent : List (List UInt8)} (ha : Host.Advance m c texts sent m' c' texts')
    (h : ∀ p, (c.outgoing ++ c.worker.payloads).getLast? = some p → p ≠ []) :
    ∀ p, (c'.outgoing ++ c'.worker.payloads).getLast? = some p → p ≠ [] := by
  intro p hp
  cases ha with
  | read => exact h p hp
  | begin hw hc =>
    simp only [Host.Worker.payloads, ← List.append_assoc, List.getLast?_concat] at hp
    exact Option.some.inj hp ▸ Host.respond_reply_ne_nil _ _ _
  | print hw => exact h p (by simpa [Host.Worker.payloads, Connection.post, hw] using hp)
  | finish hw => exact h p (by simpa [Host.Worker.payloads, hw] using hp)
  | answer hw => exact h p (by simpa [Host.Worker.payloads, Connection.post, hw] using hp)
  | write ho => exact h p (by simp [ho, List.getLast?_cons, hp])

/-- What the host sends is no longer owed. -/
theorem Account.owed_host (ha : Account c k m texts b lines unwritten waiting conn)
    {move : Host.Move} {h : Host} {sent : List (List UInt8)} (hq : move.IsQuiet)
    (hstep : b.other.step? move = some h)
    (hsent : (h.connection b.connection).sent =
      (b.other.connection b.connection).sent ++ sent) :
    (∀ later, sent ++ Bridge.owed { b with other := h } later = b.owed later) ∧
      ((∀ p, (b.served.outgoing ++ b.served.worker.payloads).getLast? = some p → p ≠ []) →
        ∀ p, ((h.connection b.connection).outgoing ++
          (h.connection b.connection).worker.payloads).getLast? = some p → p ≠ []) := by
  obtain ⟨sent', conn', waiting', hadvance, hserving, -⟩ := ha.serving.step hq hstep
  have hserved : h.connection b.connection = conn' := by
    rw [ha.connection, hserving.connection]
  obtain rfl : sent' = sent := by
    rw [ha.connection, ha.serving.connection, hserving.connection, hadvance.sent_eq] at hsent
    exact List.append_cancel_left hsent
  refine ⟨fun later => ?_, ?_⟩
  · simp only [Bridge.owed, Bridge.served, hserved]
    rw [hserving.incoming, map_decode_encode, hadvance.owed, ← ha.owed_eq]
    rfl
  · rw [ha.served_eq, hserved]
    exact ends_of_advance hadvance

/-- What the host sends is still to come. -/
theorem Account.coming_host (ha : Account c k m texts b lines unwritten waiting conn)
    {move : Host.Move} {h : Host} {sent : List (List UInt8)} (hq : move.IsQuiet)
    (hstep : b.other.step? move = some h)
    (hsent : (h.connection b.connection).sent =
      (b.other.connection b.connection).sent ++ sent) :
    (b.withHost h sent).coming k = b.coming k := by
  have howed := (ha.owed_host hq hstep hsent).1 []
  simp only [Bridge.coming, ← howed, ha.clientCapacity, List.flatMap_append, List.length_append,
    Nat.add_assoc]
  rfl

theorem Flow.host (hf : Flow k m b) (ha : Account c k m texts b lines unwritten waiting conn)
    {move : Host.Move} {h : Host} {sent : List (List UInt8)} (hq : move.IsQuiet)
    (hstep : b.other.step? move = some h)
    (hsent : (h.connection b.connection).sent =
      (b.other.connection b.connection).sent ++ sent) :
    Flow k m (b.withHost h sent) := by
  obtain ⟨howed, hends⟩ := ha.owed_host hq hstep hsent
  refine ⟨fun later => ?_, hends hf.ends, hf.free, ?_⟩
  · have hanswered := hf.answered later
    rw [← howed later, ← List.append_assoc, Bridge.served, ← hsent] at hanswered
    exact hanswered
  · rw [ha.coming_host hq hstep hsent]
    exact hf.bound

/-- A text that is written is owed an answer. -/
theorem Account.owed_write (ha : Account c k m texts b lines unwritten waiting conn)
    (hfits : ∀ t ∈ texts, Fits c t) {text : String} (hs : b.session.submission = .locked text) :
    ∃ conn', (b.other.arrive b.capacity b.connection (Text.encode text)).connection b.connection =
        conn' ∧ conn'.sent = b.served.sent ∧ conn'.outgoing = b.served.outgoing ∧
      conn'.worker = b.served.worker ∧
      ∀ later, Bridge.owed
        { b with other := b.other.arrive b.capacity b.connection (Text.encode text) } later =
          b.owed (text :: later) := by
  obtain rfl := (hs ▸ ha.prompting).of_locked
  have hfit : Fits c text := hfits text (by simp [ha.texts_eq])
  have hserving := ha.serving.arrive hfit.ne_empty hfit.octetCount_le hfit.plain
  rw [← ha.capacity, ← ha.connection] at hserving
  have hserved := hserving.connection
  rw [← ha.connection] at hserved
  have hincoming : (conn.incoming ++ [Text.encode text]).map Text.decode = waiting ++ [text] := by
    rw [← map_decode_encode (waiting ++ [text]), ← hserving.incoming]
  refine ⟨_, hserved, by rw [ha.served_eq], by rw [ha.served_eq], by rw [ha.served_eq],
    fun later => ?_⟩
  rw [ha.owed_eq]
  simp only [Bridge.owed, Bridge.served, hserved, hincoming, Host.arrive_memory]
  simp [Connection.owed]

/-- What answers a text that is written is to come. -/
theorem Flow.coming_write (hf : Flow k m b)
    (ha : Account c k m texts b lines unwritten waiting conn) (hfits : ∀ t ∈ texts, Fits c t)
    {text : String} (hs : b.session.submission = .locked text) :
    (b.withWritten text).coming k + (frameCounts k m b.sentTexts).sum =
      b.coming k + (frameCounts k m (b.sentTexts ++ [text])).sum := by
  obtain ⟨_, -, -, -, -, howed⟩ := ha.owed_write hfits hs
  have howed : (b.withWritten text).owed [] = b.owed [text] := howed []
  have hbefore := hf.answered []
  have hafter := hf.answered [text]
  rw [List.append_nil] at hbefore
  simp only [sum_frameCounts, ← hbefore, ← hafter, Bridge.coming, howed, List.flatMap_append,
    List.length_append]
  omega

theorem Flow.write (hf : Flow k m b) (ha : Account c k m texts b lines unwritten waiting conn)
    (hfits : ∀ t ∈ texts, Fits c t) {text : String} (hp : b.phase = .submitting)
    (hs : b.session.submission = .locked text) : Flow k m (b.withWritten text) := by
  obtain ⟨conn', hserved, hsent, hout, hworker, howed⟩ := ha.owed_write hfits hs
  have htexts : (b.withWritten text).sentTexts = b.sentTexts ++ [text] := by
    simp [Bridge.sentTexts, Text.decode_encode]
  refine ⟨fun later => ?_, ?_, by simp [hp], ?_⟩
  · have hlater := hf.answered (text :: later)
    rw [← howed, ← hsent, ← hserved] at hlater
    rw [htexts, List.append_assoc]
    exact hlater
  · simp only [Bridge.served, hserved, hout, hworker]
    exact hf.ends
  · have hbound := hf.bound
    have hcoming := hf.coming_write ha hfits hs
    rw [htexts]
    simp only [List.length_append, List.length_singleton, hs, Submission.ahead] at hbound ⊢
    omega

theorem Flow.stride (hf : Flow k m b) (ha : Account c k m texts b lines unwritten waiting conn)
    (hfits : ∀ t ∈ texts, Fits c t) (hs : Stride b next) : Flow k m next := by
  cases hs with
  | read hp =>
    obtain ⟨ho, hc, -, submission, hsession, hsubmission⟩ := ha.read_same hp
    have hahead : submission.ahead = 0 := by
      rcases hsubmission with rfl | ⟨text, rfl⟩ <;> rfl
    refine hf.of_same ho hc (by rw [hsession]) (fun _ => ?_) ?_
    · rw [hsession]
      exact hf.free (.inl hp)
    · simp only [hsession, hahead]
      omega
  | take hp hs =>
    refine hf.of_same rfl rfl rfl (by simp [hp]) ?_
    have hidle := hf.free (.inr ⟨_, hs⟩)
    cases hlock : b.session.lock with
    | busy => exact (hidle hlock).elim
    | idle | closed =>
      simp only [Submission.ahead, Lock.held, hs]
      omega
  | write hp hs => exact hf.write ha hfits hp hs
  | settle hp hs =>
    refine hf.of_same rfl rfl rfl (by simp) ?_
    simp only [hs, Submission.ahead]
    omega
  | wake hp hlock => exact hf.of_same rfl rfl rfl (fun _ => by simp [hlock]) (Nat.le_refl _)
  | receive hr hin =>
    refine hf.of_same rfl rfl rfl hf.free ?_
    simp only [hr, hin, Receiver.inHand, List.length_cons]
    omega
  | print hr =>
    refine hf.of_same rfl rfl rfl hf.free ?_
    simp only [hr, Receiver.inHand]
    omega
  | release hr =>
    refine hf.of_same rfl rfl rfl (fun _ => by simp) ?_
    have hheld : b.session.lock.held ≤ Lock.held .idle + 1 := b.session.lock.held_le
    simp only [hr, Receiver.inHand]
    omega
  | host hq hstep hsent => exact hf.host ha hq hstep hsent

/-! ## Runs -/

theorem Flow.of_leads (hf : Flow k m b) (hb : Sound c k m texts b) (hfits : ∀ t ∈ texts, Fits c t)
    (h : b.Leads next) : Flow k m next := by
  induction h with
  | refl => exact hf
  | cons hstep hq _ ih =>
    obtain ⟨_, _, _, _, ha⟩ := id hb
    have hafter := hf.stride ha hfits (ha.stride hq hstep)
    exact ih hafter (hb.step hfits hq hstep).1

theorem Flow.start (c k : Nat) (handles : List Resource.Handle) (m : Memory)
    (lines : List String) : Flow k m (Bridge.start c k (.new handles m) (lines.map .line)) where
  answered _ := rfl
  ends p hp := by
    have hnone : none = some p := hp
    cases hnone
  free _ := by simp [Bridge.start, Dialogue.new, Session.startReceiver, Session.new]
  bound := Nat.le_refl _

end RemoteEval.Shell
