import RemoteEval.Proofs.Shell.Turn

/-!
# A closed session stays closed

Once the host has closed the connection, the session stays closed whatever the prompt and the
receiver do, and no submission that starts then is sent (`closed_final`). Two parties write the
lock. The prompt writes it with a look at what is there, and neither takes a closed lock nor gives
one back (`Turn.take`, `giveBack`). The receiver writes it without, and that a release never opens a
closed lock is for another reason : it closes the lock with its last step, so that a session whose
lock is closed has a receiver that is done (`Latched`).
-/

namespace RemoteEval.Shell.Session

open Wire (LinkError Sentinel)

variable {s next last : Session} {outcome : Option Submitted} {ends : List Submitted}

/-- What every turn keeps, any steps keep. -/
theorem Leads.keeps {P : Session → Prop}
    (hturn : ∀ {s next : Session} {outcome : Option Submitted}, P s → s.Turn outcome next → P next)
    (hs : P s) (h : s.Leads ends next) : P next := by
  induction h with
  | refl => exact hs
  | cons hstep _ ih => exact ih (hturn hs hstep.turn)

/-- A run of moves are steps. -/
theorem Leads.of_run? {moves : List Move} (h : s.run? moves = some next) :
    ∃ ends, s.Leads ends next := by
  induction moves generalizing s with
  | nil =>
    cases h
    exact ⟨[], .refl _⟩
  | cons move moves ih =>
    simp only [run?] at h
    split at h
    · next mid outcome hmove =>
      obtain ⟨ends, hrest⟩ := ih h
      exact ⟨_, .cons (.move hmove) hrest⟩
    · cases h

/-! ## What closes the lock -/

/-- The lock is closed by a receiver that is done. -/
def Latched (s : Session) : Prop :=
  s.lock = .closed → s.receiver = .stopped

theorem Latched.turn (hs : s.Latched) (h : s.Turn outcome next) : next.Latched := by
  intro hl
  cases h with
  | take => cases hl
  | giveBack =>
    refine hs ?_
    simp only [Session.giveBack] at hl
    split at hl
    · cases hl
    · exact hl
  | release => cases hl
  | close => rfl
  | startReceiver hr | receive hr | finish hr | print hr | load _ _ _ hr =>
    -- these find a receiver that is not done, so the lock was not closed before
    cases hr.symm.trans (hs hl)
  | _ => exact hs hl

theorem Reachable.latched (h : s.Reachable) : s.Latched := by
  obtain ⟨hostCapacity, clientCapacity, ends, hrun⟩ := h
  exact hrun.keeps (fun hs ht => hs.turn ht) (fun hl => by cases hl)

/-! ## What a closed session does -/

/-- The lock is closed and the receiver is done. -/
structure Closed (s : Session) : Prop where
  /-- The lock is closed. -/
  lock : s.lock = .closed
  /-- The receiver is done. -/
  receiver : s.receiver = .stopped

theorem Closed.turn (hs : s.Closed) (h : s.Turn outcome next) : next.Closed := by
  obtain ⟨hlock, hreceiver⟩ := hs
  cases h with
  | take _ hl => exact absurd hlock hl
  | giveBack => exact ⟨by simp [Session.giveBack, hlock], hreceiver⟩
  | startReceiver hr | receive hr | finish hr | print hr | release hr | close hr | load _ _ _ hr =>
    cases hr.symm.trans hreceiver
  | _ => exact ⟨hlock, hreceiver⟩

/-- A closed session without a submission that has taken the lock. -/
structure Shut (s : Session) : Prop extends s.Closed where
  /-- A submission has not taken the lock. -/
  submission : s.submission = .none ∨ ∃ text, s.submission = .sized text

theorem Shut.turn (hs : s.Shut) (h : s.Turn outcome next) : next.Shut := by
  have hsub := hs.submission
  refine ⟨hs.toClosed.turn h, ?_⟩
  cases h with
  | start => exact .inr ⟨_, rfl⟩
  | take _ hl => exact absurd hs.lock hl
  | refuse | settle | giveBack => exact .inl rfl
  | write h | fail _ h => simp [h] at hsub
  | _ => exact hsub

/-- A session that is shut writes interrupts only. -/
theorem Shut.written_turn (hs : s.Shut) (h : s.Turn outcome next) :
    next.written = s.written ∨ next.written = s.written ++ [Sentinel.interrupt.octets] := by
  have hsub := hs.submission
  cases h with
  | interrupt => exact .inr rfl
  | write h => simp [h] at hsub
  | load _ _ _ hr => cases hr.symm.trans hs.receiver
  | _ => exact .inl rfl

theorem Shut.written_eq (hs : s.Shut) (h : s.Leads ends last) :
    ∃ n, last.written = s.written ++ List.replicate n Sentinel.interrupt.octets := by
  induction h with
  | refl => exact ⟨0, by simp⟩
  | cons hstep _ ih =>
    obtain ⟨n, hn⟩ := ih (hs.turn hstep.turn)
    obtain hw | hw := hs.written_turn hstep.turn
    · exact ⟨n, by rw [hn, hw]⟩
    · exact ⟨n + 1, by rw [hn, hw, List.append_assoc]; rfl⟩

/-! ## Submissions to a closed session -/

/-- What becomes of a submission that was found to fit, and of those after it : it fails because the
connection is closed, or will with its next step, and nothing but interrupts is written. -/
structure Refused (s : Session) (ends : List Submitted) (last : Session) : Prop where
  /-- The submission ends as it should. -/
  fails : ∀ first ∈ ends.head?, first = .failed .closed
  /-- Until it ends, its next step ends it. -/
  next_fails : ends = [] →
    last.step? .take = some ({ last with submission := .none }, some (.failed .closed))
  /-- Nothing but interrupts is written. -/
  silent : ∃ n, last.written = s.written ++ List.replicate n Sentinel.interrupt.octets

/-- A submission to a closed session that has not taken the lock fails or waits to. -/
theorem Closed.turn_of_sized {text : String} (hs : s.Closed) (hsub : s.submission = .sized text)
    (h : s.Turn outcome next) :
    outcome = some (.failed .closed) ∨ outcome = none ∧ next.submission = .sized text := by
  cases h with
  | refuse => exact .inl rfl
  | take _ hl => exact absurd hs.lock hl
  | start h | tooLong h | clearPending h | write h | fail _ h | giveBack h | settle _ _ h
  | load _ _ h => cases h.symm.trans hsub
  | _ => exact .inr ⟨rfl, hsub⟩

theorem Closed.ends_of_sized {text : String} (hs : s.Closed) (hsub : s.submission = .sized text)
    (h : s.Leads ends last) :
    ends = [] ∧ last.Closed ∧ last.submission = .sized text ∨
      ends.head? = some (.failed .closed) := by
  induction h with
  | refl => exact .inl ⟨rfl, hs, hsub⟩
  | cons hstep _ ih =>
    obtain rfl | ⟨rfl, hmid⟩ := hs.turn_of_sized hsub hstep.turn
    · exact .inr rfl
    · exact ih (hs.turn hstep.turn) hmid

theorem Closed.refused {text : String} (hs : s.Closed) (hsub : s.submission = .sized text)
    (h : s.Leads ends last) : Refused s ends last := by
  have hsilent := Shut.written_eq ⟨hs, .inr ⟨text, hsub⟩⟩ h
  obtain ⟨rfl, hlast, hwaits⟩ | hfails := hs.ends_of_sized hsub h
  · refine ⟨nofun, fun _ => ?_, hsilent⟩
    simp [step?, hwaits, Session.take, hlast.lock]
  · refine ⟨fun first hfirst => ?_, fun hnil => by simp [hnil] at hfails, hsilent⟩
    exact Option.some.inj (hfirst.symm.trans hfails)

/-- **Closed is final.** Whatever happens after the lock was closed, it stays closed, no prompt is
kept waiting, and a submission that starts with a text that fits fails because the connection is
closed and writes nothing. -/
theorem closed_final (hs : s.Reachable) (hclosed : s.lock = .closed) (h : s.Leads ends next) :
    next.lock = .closed ∧ next.isBlocked = false ∧
      ∀ line, next.submission = .none →
        Text.octetCount (next.joined line) ≤ next.hostCapacity →
          ∃ sized, next.step? (.start line) = some (sized, none) ∧
            sized.written = next.written ∧
            ∀ ends' last, sized.Leads ends' last → Refused sized ends' last := by
  have hnext : next.Closed := h.keeps (fun hs ht => hs.turn ht) ⟨hclosed, hs.latched hclosed⟩
  refine ⟨hnext.lock, by simp [isBlocked, hnext.lock], fun line hnone hfits => ?_⟩
  have hstart : next.step? (.start line) =
      some ({ next with submission := .sized (next.joined line) }, none) := by
    simp [step?, Session.start, Wire.checkSize, hnone, Nat.not_lt.mpr hfits]
  exact ⟨_, hstart, rfl, fun ends' last hlast =>
    Closed.refused ⟨hnext.lock, hnext.receiver⟩ rfl hlast⟩

/-- A host that closes the connection between the locking and the writing of a submission leaves
the session closed when the write fails, and the next submission is refused. -/
theorem closed_final_failed_write :
    ∃ s, (new 8 8).run? [.startReceiver, .start "f()", .take, .hangUp, .receive, .release,
        .write (some "broken pipe"), .giveBack] = some s ∧
      s.Leads [] s ∧ s.lock = .closed ∧ s.isBlocked = false ∧
      ∃ sized, s.step? (.start "g()") = some (sized, none) ∧ sized.written = s.written ∧
        ∀ ends last, sized.Leads ends last → Refused sized ends last := by
  let s : Session :=
    { (new 8 8).hangUp with lock := .closed, receiver := .stopped, submission := .none }
  have hrun : (new 8 8).run? [.startReceiver, .start "f()", .take, .hangUp, .receive, .release,
      .write (some "broken pipe"), .giveBack] = some s := by decide +kernel
  obtain ⟨ends, hleads⟩ := Leads.of_run? hrun
  obtain ⟨hlock, hblocked, hrefused⟩ := closed_final ⟨8, 8, ends, hleads⟩ rfl (.refl s)
  exact ⟨s, hrun, .refl s, hlock, hblocked, hrefused "g()" rfl (by decide +kernel)⟩

end RemoteEval.Shell.Session
