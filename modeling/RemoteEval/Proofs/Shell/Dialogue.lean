import RemoteEval.Proofs.Host.Service
import RemoteEval.Proofs.Shell.Transcript

/-!
# A dialogue with a host

Where each line is answered in full before the next is read, a dialogue sends the texts that the
lines become and prints what answers them (`Dialogue.run_eq`).
-/

namespace RemoteEval.Shell

open Script (Memory)

variable {c k : Nat} {handles : List Resource.Handle} {m : Memory}

/-! ## The receiver -/

/-- A receiver that waits receives and prints all that has arrived, and gives the lock back. -/
theorem receiveAll_eq {s : Session} {limit : Nat} (hr : s.receiver = .waiting)
    (hopen : s.hungUp = false) (hlimit : s.inbox.length < limit) :
    Session.receiveAll limit s =
      { s with
        inbox := []
        printed := s.printed ++ s.inbox.flatMap Session.printout
        lock := if s.inbox = [] then s.lock else .idle } := by
  induction limit generalizing s with
  | zero => simp at hlimit
  | succ limit ih =>
    cases hin : s.inbox with
    | nil =>
      have hnone : s.receive? = none := by simp [Session.receive?, hr, hin, hopen]
      obtain ⟨⟩ := s
      cases hin
      simp [Session.receiveAll, hnone]
    | cons frame rest =>
      have hsome : s.receive? = some { s with receiver := .holding frame, inbox := rest } := by
        simp [Session.receive?, hr, hin]
      rw [Session.receiveAll, hsome]
      simp only [Session.print?, Option.getD_some, Session.release?]
      have hrest := ih
        (s := { s with
          receiver := .waiting
          lock := .idle
          inbox := rest
          printed := s.printed ++ Session.printout frame })
        rfl hopen (by simpa [hin] using hlimit)
      rw [hrest]
      simp [hr]

/-- Payloads that arrive at a receiver that waits are printed, and the lock is given back if
something is received. -/
theorem drain_payloads {s : Session} (hr : s.receiver = .waiting) (hin : s.inbox = [])
    (hopen : s.hungUp = false) {payloads : List (List UInt8)} (hne : ∃ p ∈ payloads, p ≠ []) :
    ((payloads.map Delivery.payload).foldl Session.deliver s).drain =
      { s with
        printed := s.printed ++ printouts s.clientCapacity payloads
        lock := .idle } := by
  have hreceived : payloads.flatMap (Wire.frames s.clientCapacity) ≠ [] := by
    obtain ⟨p, hp, hne⟩ := hne
    intro hnil
    exact hne (Wire.frames_eq_nil_iff.1 (List.flatMap_eq_nil_iff.1 hnil p hp))
  have hall := receiveAll_eq
    (s := { s with inbox := s.inbox ++ payloads.flatMap (Wire.frames s.clientCapacity) })
    hr hopen (Nat.lt_succ_self _)
  rw [deliver_payloads hopen, Session.drain, hall]
  simp [hin, hreceived, printouts]

/-! ## One line -/

theorem Session.submit_of_long {s : Session} {line : String}
    (hlong : s.hostCapacity < Text.octetCount (continued s.pending line)) :
    s.submit line none =
      (.failed (.tooLarge (Text.octetCount (continued s.pending line)) s.hostCapacity), s) := by
  simp only [Session.submit, Session.start_eq, if_pos hlong]

theorem Session.submit_of_le {s : Session} (line : String) (hlock : s.lock = .idle)
    (hle : ¬s.hostCapacity < Text.octetCount (continued s.pending line)) :
    ∃ isOpen, s.submit line none =
      (.sent isOpen,
        { s with
          lock := .busy
          pending := leftOpen (continued s.pending line)
          submission := .none
          written := s.written ++ [Text.encode (continued s.pending line)] }) := by
  have hj : s.joined line = continued s.pending line := rfl
  simp only [Session.submit, Session.start_eq, if_neg hle, Session.take, hlock, reduceCtorEq,
    if_false, Session.write, hj]
  obtain ⟨isOpen, hsettle⟩ := Session.settle_eq
    { s with
      lock := .busy
      submission := .written (continued s.pending line)
      written := s.written ++ [Text.encode (continued s.pending line)] } (continued s.pending line)
  exact ⟨isOpen, by rw [hsettle]⟩

/-- A dialogue between two lines : the host has nothing to do, and the session waits for nothing. -/
structure Dialogue.IsQuiet (d : Dialogue Host) (c k : Nat) (pending : String) (m : Memory) :
    Prop where
  hostCapacity : d.session.hostCapacity = c
  clientCapacity : d.session.clientCapacity = k
  lock : d.session.lock = .idle
  pending : d.session.pending = pending
  receiver : d.session.receiver = .waiting
  inbox : d.session.inbox = []
  hungUp : d.session.hungUp = false
  host : ∃ handles sent, d.other = Host.single handles m (.idle sent)

variable {d : Dialogue Host} {pending line : String}

/-- A line that is sent is answered in full. -/
theorem Dialogue.enter_command (hd : d.IsQuiet c k pending m) (hk : LineKind.of line = .command)
    (hle : ¬c < Text.octetCount (continued pending line))
    (hp : Wire.IsPlain (continued pending line)) :
    ∃ next, d.enter (.ofHost c 0) line = (none, next) ∧
      next.IsQuiet c k (leftOpen (continued pending line))
        (Host.respond .quiet (continued pending line) m).memory ∧
      next.session.written = d.session.written ++ [Text.encode (continued pending line)] ∧
      next.session.printed = d.session.printed ++
        printouts k (Host.respond .quiet (continued pending line) m).payloads := by
  obtain ⟨handles, sent, hother⟩ := hd.host
  obtain ⟨isOpen, hsubmit⟩ := Session.submit_of_le line hd.lock
    (by rwa [hd.hostCapacity, hd.pending])
  rw [hd.pending] at hsubmit
  have hne := continued_ne_empty pending hk
  have hhear := Host.hear_text handles m hne (Nat.le_of_not_lt hle) hp sent
  generalize continued pending line = text at *
  generalize hr : Host.respond .quiet text m = r at *
  have hreply : ∃ p ∈ r.payloads, p ≠ [] :=
    ⟨r.reply, by simp [Host.Response.payloads], hr ▸ Host.respond_reply_ne_nil _ _ _⟩
  have hdrain := drain_payloads
    (s := { d.session with
      lock := .busy
      pending := leftOpen text
      submission := .none
      written := d.session.written ++ [Text.encode text] })
    hd.receiver hd.inbox hd.hungUp hreply
  have hencode : Text.encode text ≠ [] := fun he => hne (Text.encode_eq_nil_iff.1 he)
  have hanswer : (Peer.ofHost c 0).answer (Text.encode text) d.other =
      (r.payloads.map .payload, Host.single handles r.memory (.idle (sent ++ r.payloads))) := by
    rw [hother]
    simp only [Peer.ofHost, hhear]
  simp only [hd.hungUp] at hdrain
  simp only [Dialogue.enter, hsubmit, List.getLast?_append, List.getLast?_singleton, Option.some_or,
    Option.getD_some, Dialogue.exchange, hencode, hd.hungUp, decide_false, Bool.or_false, if_false,
    Bool.false_eq_true, hanswer, hdrain, reduceCtorEq]
  refine ⟨_, rfl, ?_, rfl, ?_⟩
  · exact ⟨hd.hostCapacity, hd.clientCapacity, rfl, rfl, hd.receiver, hd.inbox, rfl, _, _, rfl⟩
  · simp only [hd.clientCapacity]

theorem Dialogue.read_line {σ : Type} (peer : Peer σ) (d : Dialogue σ) (line : String) :
    d.read peer (.line line) =
      match LineKind.of line with
      | .blank => (none, d)
      | .quit => (some .quit, d)
      | .command => d.enter peer line := by
  refine (ite_trimmed_eq line _ _ _).trans ?_
  cases LineKind.of line <;> rfl

theorem Dialogue.IsQuiet.showPrompt (hd : d.IsQuiet c k pending m) :
    d.showPrompt.IsQuiet c k pending m :=
  { hd with }

theorem Dialogue.enter_long (hd : d.IsQuiet c k pending m)
    (hlong : c < Text.octetCount (continued pending line)) :
    d.enter (.ofHost c 0) line = (none, { d with history := d.history ++ [line] }) := by
  rw [← hd.hostCapacity, ← hd.pending] at hlong
  simp only [Dialogue.enter, Session.submit_of_long hlong]

/-! ## All lines -/

/-- A dialogue sends the texts that the lines become, and prints what answers them. -/
theorem Dialogue.run_eq {lines : List String} (hd : d.IsQuiet c k pending m)
    (hp : ∀ t ∈ sendable c pending lines, Wire.IsPlain t) :
    (Dialogue.run (.ofHost c 0) (lines.map .line) d).2.session.written =
        d.session.written ++ (sendable c pending lines).map Text.encode ∧
      (Dialogue.run (.ofHost c 0) (lines.map .line) d).2.session.printed =
        d.session.printed ++ printouts k (Host.answers m (sendable c pending lines)) := by
  induction lines generalizing d pending m with
  | nil =>
    rw [show sendable c pending [] = [] from rfl]
    simp [Dialogue.run, Host.answers, printouts]
  | cons line rest ih =>
    simp only [List.map_cons, Dialogue.run, Dialogue.read_line]
    cases hk : LineKind.of line with
    | blank =>
      simp only [sendable, hk] at hp ⊢
      exact ih hd.showPrompt hp
    | quit =>
      simp [sendable, hk, Host.answers, printouts]
    | command =>
      by_cases hlong : c < Text.octetCount (continued pending line)
      · simp only [sendable, hk, if_pos hlong] at hp ⊢
        rw [Dialogue.enter_long hd.showPrompt hlong]
        exact ih (d := { d.showPrompt with history := d.history ++ [line] }) { hd with } hp
      · simp only [sendable, hk, if_neg hlong, List.mem_cons, forall_eq_or_imp] at hp ⊢
        obtain ⟨next, henter, hquiet, hwritten, hprinted⟩ :=
          Dialogue.enter_command hd.showPrompt hk hlong hp.1
        obtain ⟨hw, hpr⟩ := ih hquiet hp.2
        simp only [henter]
        rw [hw, hpr, hwritten, hprinted]
        simp [Host.answers, printouts_append]

end RemoteEval.Shell
