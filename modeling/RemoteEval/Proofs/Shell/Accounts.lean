import RemoteEval.Proofs.Host.Conservation
import RemoteEval.Proofs.Shell.Transcript
import RemoteEval.Shell.Bridge

/-!
# The accounts of a bridge

What is still to be written, read, evaluated, sent and printed is accounted for at every step of the
prompt, the receiver and the host (`Account`), and each step settles a part of it (`Sound.step`). A
prompt that waits is owed a reply, so that some step can happen until everything is done
(`Sound.exists_step`), whatever was done before everything can be done (`Sound.exists_drained`), and
no order of steps goes on for ever (`Sound.not_endless`). Once everything is done all the texts have
been written, and all that answers them has been printed (`Sound.settled`).
-/

namespace RemoteEval.Shell

open Host (Connection Serving)
open Script (Memory)

/-! ## Where a bridge stands -/

/-- What is still to be written, by where the prompt and its submission stand : everything that the
lines that are left become, behind the text that is being submitted. -/
inductive Prompting (capacity : Nat) (lines : List String) :
    Phase → Submission → (pending : String) → (unwritten : List String) → Prop where
  | reading {pending : String} :
      Prompting capacity lines .reading .none pending (sendable capacity pending lines)
  | sized {text pending : String} : Prompting capacity lines .submitting (.sized text) pending
      (text :: sendable capacity (leftOpen text) lines)
  | locked {text pending : String} : Prompting capacity lines .submitting (.locked text) pending
      (text :: sendable capacity (leftOpen text) lines)
  | written {text pending : String} : Prompting capacity lines .submitting (.written text) pending
      (sendable capacity (leftOpen text) lines)
  | waiting {pending : String} :
      Prompting capacity lines .waiting .none pending (sendable capacity pending lines)
  | ended {exit : Exit} {pending : String} : Prompting capacity lines (.ended exit) .none pending []

/-- The frame that a receiver has received and not printed. -/
def Receiver.held : Receiver → List (List UInt8)
  | .holding frame => [frame]
  | _ => []

/-- A receiver was started, and has not learnt that the connection is closed. -/
def Receiver.IsOpen : Receiver → Prop
  | .waiting | .holding _ | .printed => True
  | _ => False

/-- A reply is on its way to a prompt that waits for one : the command is about to be written, or
the receiver has something to do, or the host has. -/
def Awaited (s : Session) (owed : List (List UInt8)) : Prop :=
  (∃ text, s.submission = .locked text) ∨ s.receiver ≠ .waiting ∨ s.inbox ≠ [] ∨ ∃ p ∈ owed, p ≠ []

/-- Every text is still to be written or was written ; what answers the texts was sent, or is owed
for those that were written, or will be for the others ; and what was sent was printed, or is held
by the receiver, or waits for it. -/
structure Account (c k : Nat) (m : Memory) (texts : List String) (b : Bridge)
    (lines unwritten waiting : List String) (conn : Connection) : Prop where
  capacity : b.capacity = c
  hostCapacity : b.session.hostCapacity = c
  clientCapacity : b.session.clientCapacity = k
  connection : b.connection = 0
  entries : b.entries = lines.map .line
  connected : b.session.hungUp = false
  unclosed : b.session.lock ≠ .closed
  receiving : b.session.receiver.IsOpen
  prompting : Prompting c lines b.phase b.session.submission b.session.pending unwritten
  written : ∃ before, texts = before ++ unwritten ∧ b.session.written = before.map Text.encode
  serving : Serving b.other conn waiting
  answered : conn.sent ++ conn.owed b.other.memory (waiting ++ unwritten) = Host.answers m texts
  printed : b.session.printed ++
      (b.session.receiver.held ++ b.session.inbox).flatMap Session.printout =
    printouts k conn.sent
  awaited : b.session.lock = .busy → Awaited b.session (conn.owed b.other.memory waiting)

/-! ## What is left to do -/

/-- How far a submission is from its end. -/
def Submission.rank : Submission → Nat
  | .none => 0
  | .unsent _ | .written _ => 1
  | .locked _ => 2
  | .sized _ => 3

/-- How far a prompt is from its next line, and a prompt that reads from its end. -/
def Phase.rank : Phase → Nat
  | .ended _ => 0
  | .reading => 1
  | .waiting => 2
  | .submitting => 3

/-- How far a receiver is from waiting. -/
def Receiver.rank : Receiver → Nat
  | .holding _ => 2
  | .printed => 1
  | _ => 0

/-- What is left to do, first by the prompt, then by the host, then by the receiver. -/
def Bridge.rank (b : Bridge) : Nat × (Nat × Nat × Nat) × Nat :=
  (7 * b.entries.length + b.phase.rank + b.session.submission.rank,
    (b.other.connection b.connection).work, 3 * b.session.inbox.length + b.session.receiver.rank)

/-- Less is left to do, by what comes first. -/
def Less : (x y : Nat × (Nat × Nat × Nat) × Nat) → Prop :=
  Prod.Lex (· < ·) (Prod.Lex (Prod.Lex (· < ·) (Prod.Lex (· < ·) (· < ·))) (· < ·))

theorem less_wellFounded : WellFounded Less :=
  (Prod.lex Nat.lt_wfRel (Prod.lex (Prod.lex Nat.lt_wfRel (Prod.lex Nat.lt_wfRel Nat.lt_wfRel))
    Nat.lt_wfRel)).wf

/-- The accounts of a bridge are in order. -/
def Sound (c k : Nat) (m : Memory) (texts : List String) (b : Bridge) : Prop :=
  ∃ lines unwritten waiting conn, Account c k m texts b lines unwritten waiting conn

variable {c k : Nat} {m : Memory} {texts lines unwritten waiting : List String} {b next : Bridge}
  {conn : Connection}

/-! ## The network -/

/-- The bridge once a text was written, which arrives at the host. -/
abbrev Bridge.withWritten (b : Bridge) (text : String) : Bridge :=
  { b with
    session :=
      { b.session with
        submission := .written text
        written := b.session.written ++ [Text.encode text] }
    other := b.other.arrive b.capacity b.connection (Text.encode text) }

/-- The bridge once the host has moved and sent some payloads, which wait to be received. -/
abbrev Bridge.withHost (b : Bridge) (h : Host) (sent : List (List UInt8)) : Bridge :=
  { b with
    session :=
      { b.session with
        inbox := b.session.inbox ++ sent.flatMap (Wire.frames b.session.clientCapacity) }
    other := h }

theorem Bridge.relay_of_same {before after : Bridge}
    (hw : after.session.written = before.session.written)
    (hs : after.other.connection after.connection = before.other.connection before.connection) :
    before.relay after = after := by
  simp [Bridge.relay, hw, hs]

theorem Bridge.relay_of_written {before after : Bridge} {bs : List UInt8}
    (hw : after.session.written = before.session.written ++ [bs])
    (hs : after.other.connection after.connection = before.other.connection before.connection) :
    before.relay after =
      { after with other := after.other.arrive after.capacity after.connection bs } := by
  simp [Bridge.relay, hw, hs]

theorem Bridge.relay_of_sent {before after : Bridge} {sent : List (List UInt8)}
    (hopen : after.session.hungUp = false)
    (hw : after.session.written = before.session.written)
    (hs : (after.other.connection after.connection).sent =
      (before.other.connection before.connection).sent ++ sent) :
    before.relay after =
      { after with
        session :=
          { after.session with
            inbox := after.session.inbox ++
              sent.flatMap (Wire.frames after.session.clientCapacity) } } := by
  have hnone : after.session.written.drop before.session.written.length = [] := by simp [hw]
  rw [Bridge.relay, hnone, hs, List.drop_left, deliver_payloads hopen]
  rfl

/-! ## The prompt reads -/

theorem Bridge.read_nil (h : b.entries = []) :
    b.read = { b with toDialogue := b.showPrompt, phase := .ended .endOfInput } := by
  simp only [Bridge.read, h]

theorem Bridge.read_line {line : String} {rest : List Entry} (h : b.entries = .line line :: rest) :
    b.read = Bridge.enter { b with toDialogue := b.showPrompt, entries := rest } line := by
  simp only [Bridge.read, h]

theorem Bridge.enter_eq (b : Bridge) (line : String) :
    b.enter line =
      match LineKind.of line with
      | .blank => b
      | .quit => { b with phase := .ended .quit }
      | .command =>
        match b.session.start line with
        | .ok s => { b with history := b.history ++ [line] }.proceed s none
        | .error e =>
          { b with history := b.history ++ [line] }.proceed b.session (some (.failed e)) := by
  refine (ite_trimmed_eq line _ _ _).trans ?_
  cases LineKind.of line <;> rfl

theorem Bridge.enter_blank {line : String} (h : LineKind.of line = .blank) : b.enter line = b := by
  rw [Bridge.enter_eq, h]

theorem Bridge.enter_quit {line : String} (h : LineKind.of line = .quit) :
    b.enter line = { b with phase := .ended .quit } := by
  rw [Bridge.enter_eq, h]

theorem Bridge.enter_command_of_long {line : String} (h : LineKind.of line = .command)
    (hlong : b.session.hostCapacity < Text.octetCount (continued b.session.pending line)) :
    b.enter line = { b with history := b.history ++ [line], phase := .reading } := by
  rw [Bridge.enter_eq, h, Session.start_eq, if_pos hlong]
  rfl

theorem Bridge.enter_command_of_le {line : String} (h : LineKind.of line = .command)
    (hle : ¬b.session.hostCapacity < Text.octetCount (continued b.session.pending line)) :
    b.enter line =
      { b with
        history := b.history ++ [line]
        session := { b.session with submission := .sized (continued b.session.pending line) }
        phase := .submitting } := by
  rw [Bridge.enter_eq, h, Session.start_eq, if_neg hle]
  rfl

/-- Entering a line starts a submission at most. -/
theorem Bridge.enter_same (hp : b.phase = .reading) (line : String) :
    (b.enter line).other = b.other ∧ (b.enter line).connection = b.connection ∧
      (b.enter line).phase ≠ .waiting ∧
      ∃ submission, (b.enter line).session = { b.session with submission } ∧
        (submission = b.session.submission ∨ ∃ text, submission = .sized text) := by
  cases hk : LineKind.of line with
  | blank =>
    rw [Bridge.enter_blank hk]
    exact ⟨rfl, rfl, by simp [hp], _, rfl, .inl rfl⟩
  | quit =>
    rw [Bridge.enter_quit hk]
    exact ⟨rfl, rfl, by simp, _, rfl, .inl rfl⟩
  | command =>
    by_cases hlong : b.session.hostCapacity < Text.octetCount (continued b.session.pending line)
    · rw [Bridge.enter_command_of_long hk hlong]
      exact ⟨rfl, rfl, by simp, _, rfl, .inl rfl⟩
    · rw [Bridge.enter_command_of_le hk hlong]
      exact ⟨rfl, rfl, by simp, _, rfl, .inr ⟨_, rfl⟩⟩

/-- Reading a line starts a submission at most. -/
theorem Bridge.read_same (hp : b.phase = .reading) (h : b.entries = lines.map .line) :
    b.read.other = b.other ∧ b.read.connection = b.connection ∧ b.read.phase ≠ .waiting ∧
      ∃ submission, b.read.session = { b.session with submission } ∧
        (submission = b.session.submission ∨ ∃ text, submission = .sized text) := by
  cases lines with
  | nil =>
    rw [Bridge.read_nil h]
    exact ⟨rfl, rfl, by simp, _, rfl, .inl rfl⟩
  | cons line rest =>
    rw [Bridge.read_line h]
    have hentered := Bridge.enter_same
      (b := { b with toDialogue := b.showPrompt, entries := rest.map .line }) hp line
    exact hentered

theorem Bridge.step?_read (hp : b.phase = .reading) (h : b.entries = lines.map .line) :
    b.step? .read = some b.read := by
  have hact : b.act? .read = some b.read := by
    simp [Bridge.act?, hp]
  obtain ⟨ho, hc, -, submission, hsession, -⟩ := Bridge.read_same hp h
  rw [Bridge.step?, hact, Option.map_some, Bridge.relay_of_same (by rw [hsession]) (by rw [ho, hc])]

theorem Prompting.of_reading {submission : Submission} {pending : String}
    (h : Prompting c lines .reading submission pending unwritten) :
    submission = .none ∧ unwritten = sendable c pending lines := by
  cases h
  exact ⟨rfl, rfl⟩

/-- What a step leads to : the accounts are in order, and less is left to do. -/
def Settles (c k : Nat) (m : Memory) (texts : List String) (b next : Bridge) : Prop :=
  Sound c k m texts next ∧ Less next.rank b.rank

theorem less_of_prompt {p p' : Nat} (h : p' < p) (w w' : Nat × Nat × Nat) (r r' : Nat) :
    Less (p', w', r') (p, w, r) :=
  .left _ _ h

theorem Submission.rank_le (s : Submission) : s.rank ≤ 3 := by
  cases s <;> simp [Submission.rank]

theorem Phase.rank_le (p : Phase) : p.rank ≤ 3 := by
  cases p <;> simp [Phase.rank]

/-- A line that was read leaves less to do than it was, however far it is from being submitted. -/
theorem less_of_entries (h : b.entries.length = next.entries.length + 1) :
    Less next.rank b.rank := by
  have hs := Submission.rank_le next.session.submission
  have hp := Phase.rank_le next.phase
  refine less_of_prompt ?_ _ _ _ _
  omega

theorem Account.read (ha : Account c k m texts b lines unwritten waiting conn)
    (hp : b.phase = .reading) : Settles c k m texts b b.read := by
  have hprompting := ha.prompting
  rw [hp] at hprompting
  obtain ⟨hs, rfl⟩ := hprompting.of_reading
  have hentries := ha.entries
  cases lines with
  | nil =>
    rw [Bridge.read_nil hentries]
    refine ⟨⟨[], _, _, _, { ha with prompting := hs ▸ .ended }⟩, less_of_prompt ?_ _ _ _ _⟩
    simp only [hp, Phase.rank, Dialogue.showPrompt_session]
    omega
  | cons line rest =>
    have hlength : b.entries.length = (rest.map Entry.line).length + 1 := by
      rw [hentries, List.map_cons, List.length_cons]
    rw [Bridge.read_line hentries]
    cases hk : LineKind.of line with
    | blank =>
      rw [Bridge.enter_blank hk]
      refine ⟨⟨rest, _, _, _, { ha with entries := rfl, prompting := ?_ }⟩, less_of_entries hlength⟩
      simp only [hp, hs, sendable, hk, Dialogue.showPrompt_session]
      exact .reading
    | quit =>
      rw [Bridge.enter_quit hk]
      refine ⟨⟨rest, _, _, _, { ha with entries := rfl, prompting := ?_ }⟩, less_of_entries hlength⟩
      simp only [hs, sendable, hk, Dialogue.showPrompt_session]
      exact .ended
    | command =>
      by_cases hlong : c < Text.octetCount (continued b.session.pending line)
      · rw [Bridge.enter_command_of_long hk (by simpa [ha.hostCapacity] using hlong)]
        refine ⟨⟨rest, _, _, _, { ha with entries := rfl, prompting := ?_ }⟩,
          less_of_entries hlength⟩
        simp only [hs, sendable, hk, if_pos hlong, Dialogue.showPrompt_session]
        exact .reading
      · rw [Bridge.enter_command_of_le hk (by simpa [ha.hostCapacity] using hlong)]
        have hawaited (hbusy : b.session.lock = .busy) :=
          (ha.awaited hbusy).resolve_left (by simp [hs])
        refine ⟨⟨rest, _, _, _, { ha with
          entries := rfl, prompting := ?_, awaited := fun hbusy => .inr (hawaited hbusy) }⟩,
          less_of_entries hlength⟩
        simp only [sendable, hk, if_neg hlong]
        exact .sized

/-! ## The prompt submits -/

theorem Bridge.step?_of_act {move : Bridge.Move} (hact : b.act? move = some next)
    (hw : next.session.written = b.session.written)
    (hs : next.other.connection next.connection = b.other.connection b.connection) :
    b.step? move = some next := by
  rw [Bridge.step?, hact, Option.map_some, Bridge.relay_of_same hw hs]

section Submit

variable {text : String}

theorem Bridge.step?_take (hp : b.phase = .submitting) (hs : b.session.submission = .sized text)
    (hlock : b.session.lock ≠ .closed) :
    b.step? (.submit none) =
      some { b with session := { b.session with lock := .busy, submission := .locked text } } := by
  have hact : b.act? (.submit none) =
      some { b with session := { b.session with lock := .busy, submission := .locked text } } := by
    simp [Bridge.act?, hp, hs, Submission.next?, Session.step?, Session.take, hlock, Bridge.proceed]
  exact Bridge.step?_of_act hact rfl rfl

theorem Bridge.step?_write (hp : b.phase = .submitting) (hs : b.session.submission = .locked text) :
    b.step? (.submit none) =
      some (b.withWritten text) := by
  have hact : b.act? (.submit none) =
      some { b with session := b.session.write text none } := by
    simp [Bridge.act?, hp, hs, Submission.next?, Session.step?, Bridge.proceed]
  rw [Bridge.step?, hact, Option.map_some]
  exact congrArg some (Bridge.relay_of_written rfl rfl)

theorem Bridge.step?_settle (hp : b.phase = .submitting)
    (hs : b.session.submission = .written text) :
    ∃ isOpen, b.step? (.submit none) =
      some { b with
        session := { b.session with pending := leftOpen text, submission := .none }
        continuing := isOpen
        phase := .waiting } := by
  obtain ⟨isOpen, hsettle⟩ := Session.settle_eq b.session text
  refine ⟨isOpen, ?_⟩
  have hact : b.act? (.submit none) =
      some { b with
        session := { b.session with pending := leftOpen text, submission := .none }
        continuing := isOpen
        phase := .waiting } := by
    simp [Bridge.act?, hp, hs, Submission.next?, Session.step?, hsettle, Bridge.proceed]
  exact Bridge.step?_of_act hact rfl rfl

theorem Prompting.of_sized {phase : Phase} {pending : String}
    (h : Prompting c lines phase (.sized text) pending unwritten) :
    unwritten = text :: sendable c (leftOpen text) lines := by
  cases h
  rfl

theorem Prompting.of_locked {phase : Phase} {pending : String}
    (h : Prompting c lines phase (.locked text) pending unwritten) :
    unwritten = text :: sendable c (leftOpen text) lines := by
  cases h
  rfl

theorem Prompting.of_written {phase : Phase} {pending : String}
    (h : Prompting c lines phase (.written text) pending unwritten) :
    unwritten = sendable c (leftOpen text) lines := by
  cases h
  rfl

theorem Account.take (ha : Account c k m texts b lines unwritten waiting conn)
    (hp : b.phase = .submitting) (hs : b.session.submission = .sized text) :
    Settles c k m texts b
      { b with session := { b.session with lock := .busy, submission := .locked text } } := by
  obtain rfl := (hs ▸ ha.prompting).of_sized
  refine ⟨⟨_, _, _, _, { ha with
    unclosed := by simp, prompting := hp ▸ .locked, awaited := fun _ => .inl ⟨text, rfl⟩ }⟩,
    less_of_prompt ?_ _ _ _ _⟩
  simp [hs, Submission.rank]

theorem Account.write (ha : Account c k m texts b lines unwritten waiting conn)
    (hfits : ∀ t ∈ texts, Fits c t) (hp : b.phase = .submitting)
    (hs : b.session.submission = .locked text) :
    Settles c k m texts b (b.withWritten text) := by
  obtain rfl := (hs ▸ ha.prompting).of_locked
  obtain ⟨before, hbefore, hwritten⟩ := ha.written
  have hfit : Fits c text := hfits text (by simp [hbefore])
  have hserving := ha.serving.arrive hfit.ne_empty hfit.octetCount_le hfit.plain
  rw [← ha.capacity, ← ha.connection] at hserving
  refine ⟨⟨lines, sendable c (leftOpen text) lines, waiting ++ [text],
    { conn with incoming := conn.incoming ++ [Text.encode text] }, { ha with
    prompting := hp ▸ .written
    written := ⟨before ++ [text], by simpa using hbefore, by simp [hwritten]⟩
    serving := hserving
    answered := by simpa [Connection.owed] using ha.answered
    awaited := fun _ => .inr (.inr (.inr (Host.exists_owed_ne_nil _ _ (by simp)))) }⟩,
    less_of_prompt ?_ _ _ _ _⟩
  simp [hs, Submission.rank]

theorem Account.settle (ha : Account c k m texts b lines unwritten waiting conn)
    (hp : b.phase = .submitting) (hs : b.session.submission = .written text) (isOpen : Bool) :
    Settles c k m texts b
      { b with
        session := { b.session with pending := leftOpen text, submission := .none }
        continuing := isOpen
        phase := .waiting } := by
  obtain rfl := (hs ▸ ha.prompting).of_written
  have hawaited (hbusy : b.session.lock = .busy) :=
    (ha.awaited hbusy).resolve_left (by simp [hs])
  refine ⟨⟨_, _, _, _, { ha with
    prompting := .waiting, awaited := fun hbusy => .inr (hawaited hbusy) }⟩,
    less_of_prompt ?_ _ _ _ _⟩
  simp [hs, hp, Submission.rank, Phase.rank]

end Submit

/-! ## The prompt wakes -/

theorem Prompting.of_waiting {submission : Submission} {pending : String}
    (h : Prompting c lines .waiting submission pending unwritten) :
    submission = .none ∧ unwritten = sendable c pending lines := by
  cases h
  exact ⟨rfl, rfl⟩

theorem Bridge.step?_wake (hp : b.phase = .waiting) (hlock : b.session.lock = .idle) :
    b.step? .wake = some { b with phase := .reading } := by
  have hact : b.act? .wake = some { b with phase := .reading } := by
    simp [Bridge.act?, hp, hlock]
  exact Bridge.step?_of_act hact rfl rfl

theorem Account.wake (ha : Account c k m texts b lines unwritten waiting conn)
    (hp : b.phase = .waiting) : Settles c k m texts b { b with phase := .reading } := by
  have hprompting := ha.prompting
  rw [hp] at hprompting
  obtain ⟨hs, rfl⟩ := hprompting.of_waiting
  refine ⟨⟨_, _, _, _, { ha with prompting := hs ▸ .reading }⟩, less_of_prompt ?_ _ _ _ _⟩
  simp [hp, Phase.rank]

/-! ## The receiver -/

theorem less_of_receive {r r' : Nat} (h : r' < r) (p : Nat) (w : Nat × Nat × Nat) :
    Less (p, w, r') (p, w, r) :=
  .right _ (.right _ h)

theorem Bridge.step?_receive {frame : List UInt8} {rest : List (List UInt8)}
    (hr : b.session.receiver = .waiting) (hin : b.session.inbox = frame :: rest) :
    b.step? .receive =
      some { b with session := { b.session with receiver := .holding frame, inbox := rest } } := by
  have hact : b.act? .receive =
      some { b with session := { b.session with receiver := .holding frame, inbox := rest } } := by
    simp [Bridge.act?, hr, Receiver.next?, Session.step?, Session.receive?, hin]
  exact Bridge.step?_of_act hact rfl rfl

theorem Bridge.step?_print {frame : List UInt8} (hr : b.session.receiver = .holding frame) :
    b.step? .receive =
      some { b with
        session :=
          { b.session with
            receiver := .printed
            printed := b.session.printed ++ Session.printout frame } } := by
  have hact : b.act? .receive =
      some { b with
        session :=
          { b.session with
            receiver := .printed
            printed := b.session.printed ++ Session.printout frame } } := by
    simp [Bridge.act?, hr, Receiver.next?, Session.step?, Session.print?]
  exact Bridge.step?_of_act hact rfl rfl

theorem Bridge.step?_release (hr : b.session.receiver = .printed) :
    b.step? .receive =
      some { b with session := { b.session with receiver := .waiting, lock := .idle } } := by
  have hact : b.act? .receive =
      some { b with session := { b.session with receiver := .waiting, lock := .idle } } := by
    simp [Bridge.act?, hr, Receiver.next?, Session.step?, Session.release?]
  exact Bridge.step?_of_act hact rfl rfl

theorem Bridge.step?_receive_nothing (hr : b.session.receiver = .waiting)
    (hin : b.session.inbox = []) (hopen : b.session.hungUp = false) : b.step? .receive = none := by
  simp [Bridge.step?, Bridge.act?, hr, Receiver.next?, Session.step?, Session.receive?, hin, hopen]

theorem Account.receive (ha : Account c k m texts b lines unwritten waiting conn)
    {frame : List UInt8} {rest : List (List UInt8)} (hr : b.session.receiver = .waiting)
    (hin : b.session.inbox = frame :: rest) :
    Settles c k m texts b
      { b with session := { b.session with receiver := .holding frame, inbox := rest } } := by
  have hprinted := ha.printed
  refine ⟨⟨_, _, _, _, { ha with
    receiving := trivial
    printed := by simpa [Receiver.held, hr, hin] using hprinted
    awaited := fun _ => .inr (.inl (by simp)) }⟩, less_of_receive ?_ _ _⟩
  simp [hr, hin, Receiver.rank]
  omega

theorem Account.print (ha : Account c k m texts b lines unwritten waiting conn)
    {frame : List UInt8} (hr : b.session.receiver = .holding frame) :
    Settles c k m texts b
      { b with
        session :=
          { b.session with
            receiver := .printed
            printed := b.session.printed ++ Session.printout frame } } := by
  have hprinted := ha.printed
  refine ⟨⟨_, _, _, _, { ha with
    receiving := trivial
    printed := by simpa [Receiver.held, hr] using hprinted
    awaited := fun _ => .inr (.inl (by simp)) }⟩, less_of_receive ?_ _ _⟩
  simp [hr, Receiver.rank]

theorem Account.release (ha : Account c k m texts b lines unwritten waiting conn)
    (hr : b.session.receiver = .printed) :
    Settles c k m texts b
      { b with session := { b.session with receiver := .waiting, lock := .idle } } := by
  have hprinted := ha.printed
  refine ⟨⟨_, _, _, _, { ha with
    receiving := trivial
    unclosed := by simp
    printed := by simpa [Receiver.held, hr] using hprinted
    awaited := fun hbusy => by simp at hbusy }⟩, less_of_receive ?_ _ _⟩
  simp [hr, Receiver.rank]

/-! ## The host -/

theorem less_of_work {w w' : Nat × Nat × Nat}
    (h : Prod.Lex (· < ·) (Prod.Lex (· < ·) (· < ·)) w' w) (p r r' : Nat) :
    Less (p, w', r') (p, w, r) :=
  .right _ (.left _ _ h)

theorem Bridge.step?_host {move : Host.Move} {h : Host} {sent : List (List UInt8)}
    (hstep : b.other.step? move = some h) (hopen : b.session.hungUp = false)
    (hs : (h.connection b.connection).sent = (b.other.connection b.connection).sent ++ sent) :
    b.step? (.host move) =
      some (b.withHost h sent) := by
  have hact : b.act? (.host move) = some { b with other := h } := by
    simp [Bridge.act?, hstep]
  rw [Bridge.step?, hact, Option.map_some]
  exact congrArg some (Bridge.relay_of_sent hopen rfl hs)

/-- What the host sends goes over from what it owes to what the receiver will print. -/
theorem Account.host (ha : Account c k m texts b lines unwritten waiting conn) {move : Host.Move}
    {h : Host} {sent : List (List UInt8)} (hq : move.IsQuiet)
    (hstep : b.other.step? move = some h)
    (hsent : (h.connection b.connection).sent =
      (b.other.connection b.connection).sent ++ sent) :
    Settles c k m texts b (b.withHost h sent) := by
  obtain ⟨sent', conn', waiting', hadvance, hserving, hwork⟩ := ha.serving.step hq hstep
  have hconn : b.other.connection b.connection = conn := by
    rw [ha.connection, ha.serving.connection]
  have hconn' : h.connection b.connection = conn' := by
    rw [ha.connection, hserving.connection]
  obtain rfl : sent' = sent := by
    rw [hconn, hconn', hadvance.sent_eq] at hsent
    exact List.append_cancel_left hsent
  have howed := hadvance.owed []
  simp only [List.append_nil] at howed
  refine ⟨⟨lines, unwritten, waiting', conn', { ha with
    serving := hserving, answered := ?_, printed := ?_, awaited := fun hbusy => ?_ }⟩, ?_⟩
  · rw [hadvance.sent_eq, List.append_assoc, hadvance.owed, ha.answered]
  · rw [hadvance.sent_eq, printouts_append, ← ha.printed]
    simp [printouts, ha.clientCapacity]
  · rcases ha.awaited hbusy with hlocked | hreceiver | hinbox | ⟨p, hp, hne⟩
    · exact .inl hlocked
    · exact .inr (.inl hreceiver)
    · exact .inr (.inr (.inl (by simp [hinbox])))
    · rw [← howed, List.mem_append] at hp
      rcases hp with hp | hp
      · refine .inr (.inr (.inl fun hnil => ?_))
        simp only [List.append_eq_nil_iff, List.flatMap_eq_nil_iff] at hnil
        exact hne (Wire.frames_eq_nil_iff.1 (hnil.2 p hp))
      · exact .inr (.inr (.inr ⟨p, hp, hne⟩))
  · rw [← hconn, ← hconn'] at hwork
    exact less_of_work hwork _ _ _

/-! ## Every step -/

/-- Nobody asks the evaluator to stop, and the stream does not fail. -/
def Bridge.Move.IsQuiet : Bridge.Move → Prop
  | .submit failure => failure = none
  | .host move => move.IsQuiet
  | _ => True

theorem Prompting.of_submitting {submission : Submission} {pending : String}
    (h : Prompting c lines .submitting submission pending unwritten) :
    ∃ text, submission = .sized text ∨ submission = .locked text ∨ submission = .written text := by
  cases h with
  | sized => exact ⟨_, .inl rfl⟩
  | locked => exact ⟨_, .inr (.inl rfl)⟩
  | written => exact ⟨_, .inr (.inr rfl)⟩

/-- What a step comes to where nobody asks the evaluator to stop and the stream does not fail. -/
inductive Stride (b : Bridge) : Bridge → Prop where
  | read (hp : b.phase = .reading) : Stride b b.read
  | take {text : String} (hp : b.phase = .submitting) (hs : b.session.submission = .sized text) :
      Stride b { b with session := { b.session with lock := .busy, submission := .locked text } }
  | write {text : String} (hp : b.phase = .submitting) (hs : b.session.submission = .locked text) :
      Stride b (b.withWritten text)
  | settle {text : String} {isOpen : Bool} (hp : b.phase = .submitting)
      (hs : b.session.submission = .written text) :
      Stride b
        { b with
          session := { b.session with pending := leftOpen text, submission := .none }
          continuing := isOpen
          phase := .waiting }
  | wake (hp : b.phase = .waiting) (hlock : b.session.lock = .idle) :
      Stride b { b with phase := .reading }
  | receive {frame : List UInt8} {rest : List (List UInt8)} (hr : b.session.receiver = .waiting)
      (hin : b.session.inbox = frame :: rest) :
      Stride b { b with session := { b.session with receiver := .holding frame, inbox := rest } }
  | print {frame : List UInt8} (hr : b.session.receiver = .holding frame) :
      Stride b
        { b with
          session :=
            { b.session with
              receiver := .printed
              printed := b.session.printed ++ Session.printout frame } }
  | release (hr : b.session.receiver = .printed) :
      Stride b { b with session := { b.session with receiver := .waiting, lock := .idle } }
  | host {move : Host.Move} {h : Host} {sent : List (List UInt8)} (hq : move.IsQuiet)
      (hstep : b.other.step? move = some h)
      (hsent : (h.connection b.connection).sent =
        (b.other.connection b.connection).sent ++ sent) :
      Stride b (b.withHost h sent)

/-- The next step of a submission. -/
theorem Account.submit (ha : Account c k m texts b lines unwritten waiting conn)
    (hp : b.phase = .submitting) : ∃ next, b.step? (.submit none) = some next ∧ Stride b next := by
  have hprompting := ha.prompting
  rw [hp] at hprompting
  obtain ⟨text, hs | hs | hs⟩ := hprompting.of_submitting
  · exact ⟨_, Bridge.step?_take hp hs ha.unclosed, .take hp hs⟩
  · exact ⟨_, Bridge.step?_write hp hs, .write hp hs⟩
  · obtain ⟨isOpen, hstep⟩ := Bridge.step?_settle hp hs
    exact ⟨_, hstep, .settle hp hs⟩

theorem Account.stride_receive (ha : Account c k m texts b lines unwritten waiting conn)
    (hstep : b.step? .receive = some next) : Stride b next := by
  have hreceiving := ha.receiving
  cases hr : b.session.receiver with
  | waiting =>
    cases hin : b.session.inbox with
    | nil =>
      rw [Bridge.step?_receive_nothing hr hin ha.connected] at hstep
      cases hstep
    | cons frame rest =>
      rw [Bridge.step?_receive hr hin] at hstep
      cases hstep
      exact .receive hr hin
  | holding frame =>
    rw [Bridge.step?_print hr] at hstep
    cases hstep
    exact .print hr
  | printed =>
    rw [Bridge.step?_release hr] at hstep
    cases hstep
    exact .release hr
  | unstarted | ending | stopped =>
    rw [hr] at hreceiving
    cases hreceiving

theorem Account.exists_of_host (ha : Account c k m texts b lines unwritten waiting conn)
    {move : Host.Move} (hq : move.IsQuiet) (hstep : b.step? (.host move) = some next) :
    ∃ h sent, b.other.step? move = some h ∧
      (h.connection b.connection).sent = (b.other.connection b.connection).sent ++ sent ∧
      next = b.withHost h sent := by
  obtain ⟨h, hh⟩ : ∃ h, b.other.step? move = some h := by
    cases hh : b.other.step? move with
    | some h => exact ⟨h, rfl⟩
    | none => simp [Bridge.step?, Bridge.act?, hh] at hstep
  obtain ⟨sent, conn', waiting', hadvance, hserving, -⟩ := ha.serving.step hq hh
  have hsent : (h.connection b.connection).sent =
      (b.other.connection b.connection).sent ++ sent := by
    rw [ha.connection, ha.serving.connection, hserving.connection, hadvance.sent_eq]
  rw [Bridge.step?_host hh ha.connected hsent] at hstep
  exact ⟨h, sent, hh, hsent, (Option.some.inj hstep).symm⟩

theorem Account.stride (ha : Account c k m texts b lines unwritten waiting conn)
    {move : Bridge.Move} (hq : move.IsQuiet) (hstep : b.step? move = some next) :
    Stride b next := by
  cases move with
  | read =>
    by_cases hp : b.phase = .reading
    · rw [Bridge.step?_read hp ha.entries] at hstep
      cases hstep
      exact .read hp
    · simp [Bridge.step?, Bridge.act?, hp] at hstep
  | submit failure =>
    obtain rfl : failure = none := hq
    by_cases hp : b.phase = .submitting
    · obtain ⟨next', hstep', hstride⟩ := ha.submit hp
      obtain rfl : next' = next := by simpa [hstep'] using hstep
      exact hstride
    · simp [Bridge.step?, Bridge.act?, hp] at hstep
  | wake =>
    by_cases hp : b.phase = .waiting
    · cases hlock : b.session.lock with
      | idle =>
        rw [Bridge.step?_wake hp hlock] at hstep
        cases hstep
        exact .wake hp hlock
      | busy => simp [Bridge.step?, Bridge.act?, hp, hlock] at hstep
      | closed => exact (ha.unclosed hlock).elim
    · simp [Bridge.step?, Bridge.act?, hp] at hstep
  | receive => exact ha.stride_receive hstep
  | host move =>
    obtain ⟨h, sent, hh, hsent, rfl⟩ := ha.exists_of_host hq hstep
    exact .host hq hh hsent

/-- A step settles a part of what is left to do, and the accounts stay in order. -/
theorem Sound.step (hb : Sound c k m texts b) (hfits : ∀ t ∈ texts, Fits c t) {move : Bridge.Move}
    (hq : move.IsQuiet) (hstep : b.step? move = some next) : Settles c k m texts b next := by
  obtain ⟨lines, unwritten, waiting, conn, ha⟩ := hb
  cases ha.stride hq hstep with
  | read hp => exact ha.read hp
  | take hp hs => exact ha.take hp hs
  | write hp hs => exact ha.write hfits hp hs
  | settle hp hs => exact ha.settle hp hs _
  | wake hp => exact ha.wake hp
  | receive hr hin => exact ha.receive hr hin
  | print hr => exact ha.print hr
  | release hr => exact ha.release hr
  | host hmove hhost hsent => exact ha.host hmove hhost hsent

/-- Everything is done : the prompt has ended, and nothing is left to be served, received or
printed. -/
structure Bridge.Drained (b : Bridge) : Prop where
  ended : ∃ exit, b.phase = .ended exit
  served : (b.other.connection b.connection).isDone = true
  received : b.session.inbox = []
  printed : b.session.receiver = .waiting

/-- The receiver goes on as long as it has received something. -/
theorem Account.exists_receive (ha : Account c k m texts b lines unwritten waiting conn)
    (h : b.session.receiver ≠ .waiting ∨ b.session.inbox ≠ []) : (b.step? .receive).isSome := by
  have hreceiving := ha.receiving
  cases hr : b.session.receiver with
  | waiting =>
    cases hin : b.session.inbox with
    | nil => simp [hr, hin] at h
    | cons frame rest => rw [Bridge.step?_receive hr hin, Option.isSome_some]
  | holding frame => rw [Bridge.step?_print hr, Option.isSome_some]
  | printed => rw [Bridge.step?_release hr, Option.isSome_some]
  | unstarted | ending | stopped =>
    rw [hr] at hreceiving
    cases hreceiving

/-- The host goes on as long as it has something to do. -/
theorem Account.exists_host (ha : Account c k m texts b lines unwritten waiting conn)
    (h : conn.isDone = false) :
    ∃ move : Host.Move, move.IsQuiet ∧ (b.step? (.host move)).isSome := by
  obtain ⟨move, hq, hsome⟩ := ha.serving.exists_step h
  obtain ⟨next, hnext⟩ := Option.isSome_iff_exists.1 hsome
  exact ⟨move, hq, by simp [Bridge.step?, Bridge.act?, hnext]⟩

/-- A prompt that waits is owed something until the lock is given back. -/
theorem Account.lock_idle (ha : Account c k m texts b lines unwritten waiting conn)
    (hp : b.phase = .waiting) (hr : b.session.receiver = .waiting) (hin : b.session.inbox = [])
    (hdone : conn.isDone = true) : b.session.lock = .idle := by
  cases hlock : b.session.lock with
  | idle => rfl
  | closed => exact (ha.unclosed hlock).elim
  | busy =>
    have hprompting := ha.prompting
    rw [hp] at hprompting
    have howed := ha.serving.owed_eq_nil hdone b.other.memory []
    rw [List.append_nil] at howed
    rcases ha.awaited hlock with ⟨text, hlocked⟩ | hreceiver | hinbox | ⟨p, hmem, -⟩
    · rw [hprompting.of_waiting.1] at hlocked
      cases hlocked
    · exact (hreceiver hr).elim
    · exact (hinbox hin).elim
    · rw [howed] at hmem
      cases hmem

/-- Until everything is done, some step can happen. -/
theorem Sound.exists_step (hb : Sound c k m texts b) (hd : ¬b.Drained) :
    ∃ move : Bridge.Move, move.IsQuiet ∧ (b.step? move).isSome := by
  obtain ⟨lines, unwritten, waiting, conn, ha⟩ := hb
  by_cases hreceive : b.session.receiver ≠ .waiting ∨ b.session.inbox ≠ []
  · exact ⟨.receive, trivial, ha.exists_receive hreceive⟩
  obtain ⟨hr, hin⟩ : b.session.receiver = .waiting ∧ b.session.inbox = [] := by
    simpa using hreceive
  cases hdone : conn.isDone with
  | false =>
    obtain ⟨move, hq, hsome⟩ := ha.exists_host hdone
    exact ⟨.host move, hq, hsome⟩
  | true =>
    cases hp : b.phase with
    | reading => exact ⟨.read, trivial, by simp [Bridge.step?, Bridge.act?, hp]⟩
    | submitting =>
      obtain ⟨next, hstep, -⟩ := ha.submit hp
      exact ⟨.submit none, rfl, by rw [hstep, Option.isSome_some]⟩
    | waiting =>
      have hlock := ha.lock_idle hp hr hin hdone
      exact ⟨.wake, trivial, by rw [Bridge.step?_wake hp hlock, Option.isSome_some]⟩
    | ended exit =>
      refine (hd ⟨⟨exit, hp⟩, ?_, hin, hr⟩).elim
      rw [ha.connection, ha.serving.connection, hdone]

/-! ## Runs -/

/-- Steps that nobody disturbs lead from one bridge to another. -/
inductive Bridge.Leads : Bridge → Bridge → Prop where
  | refl (b : Bridge) : Bridge.Leads b b
  | cons {b after next : Bridge} {move : Bridge.Move} (hstep : b.step? move = some after)
      (hq : move.IsQuiet) (h : Bridge.Leads after next) : Bridge.Leads b next

theorem Bridge.Leads.trans {after : Bridge} (h : b.Leads after) (h' : after.Leads next) :
    b.Leads next := by
  induction h with
  | refl => exact h'
  | cons hstep hq _ ih => exact .cons hstep hq (ih h')

theorem Bridge.leads_of_run {moves : List Bridge.Move}
    (hq : ∀ move ∈ moves, Bridge.Move.IsQuiet move) (hrun : b.run? moves = some next) :
    b.Leads next := by
  induction moves generalizing b with
  | nil =>
    cases hrun
    exact .refl _
  | cons move rest ih =>
    rw [Bridge.run?] at hrun
    cases hstep : b.step? move with
    | none => simp [hstep] at hrun
    | some after =>
      rw [hstep] at hrun
      have hrest := ih (fun other ho => hq other (List.mem_cons_of_mem _ ho)) hrun
      exact .cons hstep (hq move List.mem_cons_self) hrest

/-- Whatever was done, the accounts are in order. -/
theorem Sound.of_leads (hb : Sound c k m texts b) (hfits : ∀ t ∈ texts, Fits c t)
    (h : b.Leads next) : Sound c k m texts next := by
  induction h with
  | refl => exact hb
  | cons hstep hq _ ih => exact ih (hb.step hfits hq hstep).1

theorem Sound.run (hb : Sound c k m texts b) (hfits : ∀ t ∈ texts, Fits c t)
    {moves : List Bridge.Move} (hq : ∀ move ∈ moves, move.IsQuiet)
    (hrun : b.run? moves = some next) : Sound c k m texts next :=
  hb.of_leads hfits (Bridge.leads_of_run hq hrun)

/-- Whatever was done, some further steps do everything that is left to do. -/
theorem Sound.exists_drained (hb : Sound c k m texts b) (hfits : ∀ t ∈ texts, Fits c t) :
    ∃ moves drained, (∀ move ∈ moves, Bridge.Move.IsQuiet move) ∧
      b.run? moves = some drained ∧ drained.Drained := by
  induction h : b.rank using less_wellFounded.induction generalizing b with
  | h rank ih =>
    by_cases hd : b.Drained
    · exact ⟨[], b, by simp, rfl, hd⟩
    · obtain ⟨move, hq, hsome⟩ := hb.exists_step hd
      obtain ⟨next, hstep⟩ := Option.isSome_iff_exists.1 hsome
      obtain ⟨hnext, hless⟩ := hb.step hfits hq hstep
      obtain ⟨moves, drained, hmoves, hrun, hdrained⟩ := ih _ (h ▸ hless) hnext rfl
      refine ⟨move :: moves, drained, ?_, by simp [Bridge.run?, hstep, hrun], hdrained⟩
      simpa [hq] using hmoves

/-- No order of steps goes on for ever. -/
theorem Sound.not_endless (hb : Sound c k m texts b) (hfits : ∀ t ∈ texts, Fits c t)
    (bridges : Nat → Bridge) (hstart : bridges 0 = b) :
    ¬∀ n, ∃ move : Bridge.Move, move.IsQuiet ∧ (bridges n).step? move = some (bridges (n + 1)) := by
  induction h : b.rank using less_wellFounded.induction generalizing b bridges with
  | h rank ih =>
    intro hsteps
    obtain ⟨move, hq, hstep⟩ := hsteps 0
    rw [hstart] at hstep
    obtain ⟨hnext, hless⟩ := hb.step hfits hq hstep
    exact ih _ (h ▸ hless) hnext (fun n => bridges (n + 1)) rfl rfl fun n => hsteps (n + 1)

theorem Prompting.of_ended {exit : Exit} {submission : Submission} {pending : String}
    (h : Prompting c lines (.ended exit) submission pending unwritten) : unwritten = [] := by
  cases h
  rfl

/-- Once everything is done, the accounts are settled. -/
theorem Sound.settled (hb : Sound c k m texts b) (hd : b.Drained) :
    b.session.written = texts.map Text.encode ∧
      b.session.printed = printouts k (Host.answers m texts) := by
  obtain ⟨lines, unwritten, waiting, conn, ha⟩ := hb
  obtain ⟨exit, hp⟩ := hd.ended
  have hprompting := ha.prompting
  rw [hp] at hprompting
  obtain rfl := hprompting.of_ended
  have hdone : conn.isDone = true := by
    rw [← hd.served, ha.connection, ha.serving.connection]
  have hanswered := ha.answered
  rw [ha.serving.owed_eq_nil hdone, Host.answers, List.append_nil] at hanswered
  obtain ⟨before, hbefore, hwritten⟩ := ha.written
  rw [List.append_nil] at hbefore
  subst hbefore
  refine ⟨hwritten, ?_⟩
  rw [← hanswered, ← ha.printed, hd.printed, hd.received]
  simp [Receiver.held]

theorem Sound.start (c k : Nat) (handles : List Resource.Handle) (m : Memory)
    (lines : List String) :
    Sound c k m (sendable c "" lines) (Bridge.start c k (.new handles m) (lines.map .line)) := by
  refine ⟨lines, sendable c "" lines, [], .ofFrames [], ?_⟩
  exact
    { capacity := rfl
      hostCapacity := rfl
      clientCapacity := rfl
      connection := rfl
      entries := rfl
      connected := rfl
      unclosed := by simp [Bridge.start, Dialogue.new, Session.startReceiver, Session.new]
      receiving := trivial
      prompting := .reading
      written := ⟨[], rfl, rfl⟩
      serving := ⟨rfl, rfl, by simp⟩
      answered := by simp [Connection.ofFrames, Connection.owed, Host.Worker.payloads]; rfl
      printed := rfl
      awaited := fun h => by
        simp [Bridge.start, Dialogue.new, Session.startReceiver, Session.new] at h }

end RemoteEval.Shell
