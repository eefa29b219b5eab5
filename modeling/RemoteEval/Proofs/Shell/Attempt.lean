import Mathlib.Logic.Relation
import RemoteEval.Proofs.Shell.Closing
import RemoteEval.Proofs.Shell.Transcript
import RemoteEval.Shell.Attempt

/-!
# What a failed submission leaves

A submission that fails has asked nobody and has left the open statement as it was, whatever others
did meanwhile. Before it has taken the lock it changes nothing but how far it is, so that a session
that refuses a line is what the steps of the others alone make of it. Once it has taken the lock it
fails only with its stream, and gives back a lock that it finds busy and no other : a lock that the
receiver has closed stays closed (`failed_usable`).

The steps of a submission are listed once (`Stride`), as the turns of a session are, with what they
find and who asks. Those of the others do not look at the submission (`Meanwhile.resubmitted`), nor
touch it or the open statement (`Meanwhile.same`).
-/

namespace RemoteEval.Shell

/-- A submission that has taken the lock, and fails with its stream if at all. -/
def Submission.HasLock : Submission → Prop
  | .locked _ | .written _ | .unsent (.io _) => True
  | _ => False

namespace Session

open Relation (ReflTransGen)
open Wire (LinkError Sentinel)

variable {σ : Type} {ask : Shadow σ} {s next last : Session} {m m' : σ} {actor : Actor}
  {outcome : Option Submitted} {ended : Submitted} {changes : List Change} {e : LinkError}

/-! ## The steps of a submission -/

/-- What a step of a submission that has started makes of a session and of the shadow. -/
inductive Stride (ask : Shadow σ) (s : Session) (m : σ) :
    Actor → Option Submitted → Session → σ → Prop
  | take {text : String} (hs : s.submission = .sized text) (hl : s.lock ≠ .closed) :
      Stride ask s m .submission none { s with lock := .busy, submission := .locked text } m
  | refuse {text : String} (hs : s.submission = .sized text) (hl : s.lock = .closed) :
      Stride ask s m .submission (some (.failed .closed)) { s with submission := .none } m
  | write {text : String} (hs : s.submission = .locked text) :
      Stride ask s m .submission none
        { s with submission := .written text, written := s.written ++ [Text.encode text] } m
  | fail {text : String} (detail : String) (hs : s.submission = .locked text) :
      Stride ask s m .submission none { s with submission := .unsent (.io detail) } m
  | giveBack {e : LinkError} (hs : s.submission = .unsent e) :
      Stride ask s m .submission (some (.failed e)) s.giveBack m
  | ask {text : String} (hs : s.submission = .written text) :
      Stride ask s m .shadow (some (.sent (s.settleWith (fun t => (ask t m).1) text).1))
        (s.settleWith (fun t => (ask t m).1) text).2 (ask text m).2

theorem Advances.stride (h : s.Advances ask m actor outcome next m') :
    Stride ask s m actor outcome next m' := by
  cases h with
  | @move failure move _ _ hwritten hmove h =>
    rcases hs : s.submission with _ | text | text | e | text
    · simp [hs, Submission.next?] at hmove
    · obtain rfl : .take = move := by simpa [hs, Submission.next?] using hmove
      simp only [step?, hs, Session.take] at h
      by_cases hl : s.lock = .closed
      · simp only [hl, if_true] at h
        cases h
        exact hl ▸ .refuse hs hl
      · simp only [hl, if_false] at h
        cases h
        exact .take hs hl
    · obtain rfl : .write failure = move := by simpa [hs, Submission.next?] using hmove
      simp only [step?, hs] at h
      cases h
      rcases failure with _ | detail
      · exact .write hs
      · exact .fail detail hs
    · obtain rfl : .giveBack = move := by simpa [hs, Submission.next?] using hmove
      simp only [step?, hs] at h
      cases h
      exact .giveBack hs
    · exact absurd hs (hwritten text)
  | ask hs => exact .ask hs

theorem Advances.actor_ne_others (h : s.Advances ask m actor outcome next m') :
    actor ≠ .others := by
  cases h <;> simp

theorem Advances.turn (h : s.Advances ask m actor outcome next m') : s.Turn outcome next := by
  cases h with
  | move _ _ _ h => exact (Step.move h).turn
  | ask hs => exact (Step.settle _ hs).turn

/-! ## The steps of the others -/

theorem Meanwhile.turn (h : s.Meanwhile next) : s.Turn none next := by
  cases h with
  | interrupt => exact .interrupt
  | arrive payload => exact .arrive payload
  | hangUp => exact .hangUp
  | receive h =>
    have hmove : s.step? .receive = some (next, none) := by simp [step?, h]
    exact .of_move hmove
  | print h =>
    have hmove : s.step? .print = some (next, none) := by simp [step?, h]
    exact .of_move hmove
  | release h =>
    have hmove : s.step? .release = some (next, none) := by simp [step?, h]
    exact .of_move hmove
  | breakOff h => exact .finish h

/-- Others touch neither the submission nor the open statement, and write interrupts only. -/
theorem Meanwhile.same (h : s.Meanwhile next) :
    next.submission = s.submission ∧ next.pending = s.pending ∧
      next.hostCapacity = s.hostCapacity ∧
      (next.written = s.written ∨ next.written = s.written ++ [Sentinel.interrupt.octets]) := by
  cases h with
  | interrupt => exact ⟨rfl, rfl, rfl, .inr rfl⟩
  | receive h =>
    rcases receive?_eq_some_iff.1 h with ⟨-, ⟨frame, rest, -, rfl⟩ | ⟨-, -, rfl⟩⟩ <;>
      exact ⟨rfl, rfl, rfl, .inl rfl⟩
  | print h =>
    obtain ⟨frame, -, rfl⟩ := print?_eq_some_iff.1 h
    exact ⟨rfl, rfl, rfl, .inl rfl⟩
  | release h =>
    rcases release?_eq_some_iff.1 h with ⟨-, rfl⟩ | ⟨-, rfl⟩ <;> exact ⟨rfl, rfl, rfl, .inl rfl⟩
  | _ => exact ⟨rfl, rfl, rfl, .inl rfl⟩

/-- Others do the same wherever the submission is. -/
theorem Meanwhile.resubmitted (h : s.Meanwhile next) (submission : Submission) :
    { s with submission }.Meanwhile { next with submission } := by
  cases h with
  | interrupt => exact .interrupt
  | arrive payload h => exact .arrive payload h
  | hangUp => exact .hangUp
  | receive h =>
    refine .receive (receive?_eq_some_iff.2 ?_)
    rcases receive?_eq_some_iff.1 h with ⟨hr, ⟨frame, rest, hin, rfl⟩ | ⟨hin, hclosed, rfl⟩⟩
    · exact ⟨hr, .inl ⟨frame, rest, hin, rfl⟩⟩
    · exact ⟨hr, .inr ⟨hin, hclosed, rfl⟩⟩
  | print h =>
    obtain ⟨frame, hr, rfl⟩ := print?_eq_some_iff.1 h
    exact .print (print?_eq_some_iff.2 ⟨frame, hr, rfl⟩)
  | release h =>
    refine .release (release?_eq_some_iff.2 ?_)
    rcases release?_eq_some_iff.1 h with ⟨hr, rfl⟩ | ⟨hr, rfl⟩
    · exact .inl ⟨hr, rfl⟩
    · exact .inr ⟨hr, rfl⟩
  | breakOff h => exact .breakOff h

/-- Whoever closes the lock but the submission is the receiver, with its last step. -/
theorem Meanwhile.closed (h : s.Meanwhile next) (hbefore : s.lock ≠ .closed)
    (hafter : next.lock = .closed) : next.Closed := by
  have hturn := h.turn
  cases hturn with
  | close => exact ⟨rfl, rfl⟩
  | take | release => cases hafter
  | _ => exact absurd hafter hbefore

/-! ## Submissions that fail -/

theorem Course.closed (hs : s.Closed) (h : Course ask s m changes ended last m') :
    last.Closed := by
  induction h with
  | ends h => exact hs.turn h.turn
  | advances h _ ih => exact ih (hs.turn h.turn)
  | meanwhile h _ ih => exact ih (hs.turn h.turn)

/-- A lock that others close in the course of a submission is closed in the end. -/
theorem Course.lock_closed (h : Course ask s m changes ended last m') {c : Change}
    (hc : c ∈ changes) (hactor : c.actor = .others) (hbefore : c.before.lock ≠ .closed)
    (hafter : c.after.lock = .closed) : last.lock = .closed := by
  induction h with
  | ends h =>
    obtain rfl := List.mem_singleton.1 hc
    exact absurd hactor h.actor_ne_others
  | advances h _ ih =>
    rcases List.mem_cons.1 hc with rfl | hc
    · exact absurd hactor h.actor_ne_others
    · exact ih hc
  | meanwhile h hrest ih =>
    rcases List.mem_cons.1 hc with rfl | hc
    · exact (hrest.closed (h.closed hbefore hafter)).lock
    · exact ih hc

/-- A submission that fails leaves the open statement alone, and has asked nobody. -/
theorem Course.of_failed (h : Course ask s m changes ended last m') (he : ended = .failed e) :
    last.pending = s.pending ∧ m' = m ∧ (∀ c ∈ changes, c.actor ≠ .shadow) ∧
      last.submission = .none := by
  induction h with
  | ends h =>
    subst he
    have hstride := h.stride
    cases hstride <;> simp [giveBack]
  | advances h _ ih =>
    obtain ⟨hpending, rfl, hactors, hsubmission⟩ := ih he
    have hstride := h.stride
    cases hstride <;>
      exact ⟨hpending, rfl, List.forall_mem_cons.2 ⟨by simp, hactors⟩, hsubmission⟩
  | meanwhile h _ ih =>
    obtain ⟨hpending, rfl, hactors, hsubmission⟩ := ih he
    exact ⟨hpending.trans h.same.2.1, rfl, List.forall_mem_cons.2 ⟨by simp, hactors⟩, hsubmission⟩

theorem giveBack_lock_ne_busy (s : Session) : s.giveBack.lock ≠ .busy := by
  unfold giveBack
  dsimp only
  split
  · simp
  · assumption

/-- A submission that has taken the lock and fails has lost its stream, and gives back a lock that
is busy. -/
theorem Course.of_hasLock (h : Course ask s m changes ended last m') (he : ended = .failed e)
    (hs : s.submission.HasLock) : ∃ detail, e = .io detail ∧ last.lock ≠ .busy := by
  induction h with
  | ends h =>
    subst he
    have hstride := h.stride
    cases hstride with
    | refuse hsized => simp [hsized, Submission.HasLock] at hs
    | giveBack hunsent =>
      rw [hunsent] at hs
      cases e with
      | io detail => exact ⟨detail, rfl, giveBack_lock_ne_busy _⟩
      | _ => exact hs.elim
  | advances h _ ih =>
    have hstride := h.stride
    cases hstride with
    | take hsized => simp [hsized, Submission.HasLock] at hs
    | write | fail => exact ih he trivial
  | meanwhile h _ ih => exact ih he (h.same.1 ▸ hs)

/-- A submission that fails before it has the lock was refused because the connection is closed, and
has changed nothing ; otherwise it has lost its stream. -/
theorem Course.of_sized {text : String} (h : Course ask s m changes ended last m')
    (he : ended = .failed e) (hs : s.submission = .sized text) :
    (e = .closed ∧ (∀ c ∈ changes, c.actor = .submission → c.IsBare) ∧
        ReflTransGen Meanwhile { s with submission := .none } last) ∨
      ∃ detail, e = .io detail ∧ last.lock ≠ .busy := by
  induction h with
  | ends h =>
    subst he
    have hstride := h.stride
    cases hstride with
    | refuse => exact .inl ⟨rfl, List.forall_mem_singleton.2 fun _ => rfl, .refl⟩
    | giveBack hunsent => cases hunsent.symm.trans hs
  | advances h hrest ih =>
    have hstride := h.stride
    cases hstride with
    | take => exact .inr (hrest.of_hasLock he trivial)
    | write hlocked | fail _ hlocked => cases hlocked.symm.trans hs
  | meanwhile h _ ih =>
    -- The steps of the others are the same without the submission, and come before the rest.
    rcases ih he (h.same.1.trans hs) with ⟨hclosed, hbare, hothers⟩ | hio
    · exact .inl ⟨hclosed, List.forall_mem_cons.2 ⟨by simp, hbare⟩,
        .head (h.resubmitted .none) hothers⟩
    · exact .inr hio

theorem step?_start (hs : s.submission = .none) (line : String) :
    s.step? (.start line) =
      if s.hostCapacity < Text.octetCount (continued s.pending line) then
        some (s, some (.failed
          (.tooLarge (Text.octetCount (continued s.pending line)) s.hostCapacity)))
      else some ({ s with submission := .sized (continued s.pending line) }, none) := by
  simp only [step?, hs, if_true, start_eq]
  by_cases hlong : s.hostCapacity < Text.octetCount (continued s.pending line) <;> simp [hlong]

theorem Attempt.submission_eq {line : String} (h : Attempt ask line s m changes ended last m') :
    s.submission = .none := by
  by_cases hs : s.submission = .none
  · exact hs
  · rcases h with h | ⟨h, -⟩ <;> simp [step?, hs] at h

/-- A submission without a step of anyone else in between. -/
theorem attempt_submitWith (hs : s.submission = .none)
    (shadow : String → Except Script.Fault (Option String)) (line : String)
    (failure : Option String) (m : σ) :
    ∃ changes, s.Attempt (fun text m => (shadow text, m)) line m changes
      (s.submitWith shadow line failure).1 (s.submitWith shadow line failure).2 m := by
  have hstart := step?_start hs line
  unfold submitWith
  rw [start_eq, show s.joined line = continued s.pending line from rfl]
  generalize continued s.pending line = text at hstart ⊢
  by_cases hlong : s.hostCapacity < Text.octetCount text
  · simp only [hlong, if_true] at hstart ⊢
    exact ⟨_, .refused hstart⟩
  simp only [hlong, if_false, Session.take] at hstart ⊢
  by_cases hl : s.lock = .closed
  · have hrefuse : ({ s with submission := .sized text } : Session).Advances
        (fun text m => (shadow text, m)) m .submission (some (.failed .closed)) s m :=
      .move failure (by simp) rfl
        (by simp only [step?, Session.take, if_pos hl]; rw [← hs])
    simp only [hl, if_true]
    exact ⟨_, .begun hstart (.ends hrefuse)⟩
  simp only [hl, if_false]
  have htake : ({ s with submission := .sized text } : Session).Advances
      (fun text m => (shadow text, m)) m .submission none
      { s with lock := .busy, submission := .locked text } m :=
    .move failure (by simp) rfl (by simp [step?, Session.take, hl])
  have hwrite : ({ s with lock := .busy, submission := .locked text } : Session).Advances
      (fun text m => (shadow text, m)) m .submission none
      (({ s with lock := .busy, submission := .locked text } : Session).write text failure) m :=
    .move failure (by simp) rfl rfl
  rcases failure with _ | detail
  · let written : Session :=
      { s with
        lock := .busy, submission := .written text, written := s.written ++ [Text.encode text] }
    obtain ⟨changes, hask⟩ : ∃ changes, Course (fun text m => (shadow text, m)) written m changes
        (.sent (written.settleWith shadow text).1) (written.settleWith shadow text).2 m :=
      ⟨_, .ends (.ask rfl)⟩
    rcases hverdict : shadow text with fault | _ | rest <;>
      simp only [settleWith, hverdict] at hask <;>
      exact ⟨_, .begun hstart (.advances htake (.advances hwrite hask))⟩
  · exact ⟨_, .begun hstart (.advances htake (.advances hwrite
      (.ends (.move none (by simp [write]) rfl rfl))))⟩

/-- What others have closed while a line is submitted is closed in the end. -/
theorem Attempt.lock_closed {line : String} (h : Attempt ask line s m changes ended last m')
    {c : Change} (hc : c ∈ changes) (hactor : c.actor = .others) (hbefore : c.before.lock ≠ .closed)
    (hafter : c.after.lock = .closed) : last.lock = .closed := by
  rcases h with h | ⟨h, hrest⟩
  · obtain rfl := List.mem_singleton.1 hc
    cases hactor
  · rcases List.mem_cons.1 hc with rfl | hc
    · cases hactor
    · exact hrest.lock_closed hc hactor hbefore hafter

/-- **A failed submission leaves the session usable.** Whatever others do while a line is submitted,
if the submission fails then the open statement is what it was, the shadow was not asked, and the
next line can be submitted. A submission that is refused for its length or because the connection is
closed has changed nothing but how far it was, so that the session is what the others alone make of
it. One whose stream fails leaves no lock busy. What the receiver has closed meanwhile stays
closed. -/
theorem failed_usable {line : String} (h : Attempt ask line s m changes (.failed e) last m') :
    last.pending = s.pending ∧
    m' = m ∧ (∀ c ∈ changes, c.actor ≠ .shadow) ∧
    last.submission = .none ∧
    (∀ c ∈ changes, c.actor = .others → c.before.lock ≠ .closed → c.after.lock = .closed →
      last.lock = .closed) ∧
    match e with
    | .tooLarge _ _ | .closed =>
      (∀ c ∈ changes, c.actor = .submission → c.IsBare) ∧ ReflTransGen Meanwhile s last
    | .io _ => last.lock ≠ .busy := by
  have hnone := h.submission_eq
  have hclosed : ∀ c ∈ changes, c.actor = .others → c.before.lock ≠ .closed →
      c.after.lock = .closed → last.lock = .closed :=
    fun c hc hactor hbefore hafter => h.lock_closed hc hactor hbefore hafter
  rcases h with h | ⟨h, hrest⟩
  · rw [step?_start hnone] at h
    split at h <;> cases h
    exact ⟨rfl, rfl, by simp, hnone, hclosed, List.forall_mem_singleton.2 fun _ => rfl, .refl⟩
  · rw [step?_start hnone] at h
    split at h <;> cases h
    obtain ⟨hpending, hm, hactors, hsubmission⟩ := hrest.of_failed rfl
    refine ⟨hpending, hm, List.forall_mem_cons.2 ⟨by simp, hactors⟩, hsubmission, hclosed, ?_⟩
    rcases hrest.of_sized rfl rfl with ⟨rfl, hbare, hothers⟩ | ⟨detail, rfl, hlock⟩
    · refine ⟨List.forall_mem_cons.2 ⟨fun _ => rfl, hbare⟩, ?_⟩
      simpa only [← hnone] using hothers
    · exact hlock

/-- The host closes the connection while a line is written, and the receiver has seen it when the
write fails. -/
theorem failed_usable_closed_meanwhile :
    ∃ changes last, (new 8 8).startReceiver.Attempt Script.Evaluator.script.continuation? "f()"
        .empty changes (.failed (.io "broken pipe")) last .empty ∧
      last.pending = "" ∧ (∀ c ∈ changes, c.actor ≠ .shadow) ∧ last.lock ≠ .busy ∧
      last.lock = .closed := by
  let s : Session := (new 8 8).startReceiver
  let sized : Session := { s with submission := .sized "f()" }
  let locked : Session := { s with lock := .busy, submission := .locked "f()" }
  let ending : Session := { locked.hangUp with receiver := .ending }
  let closed : Session := { ending with receiver := .stopped, lock := .closed }
  let last : Session := { closed with submission := .none }
  have hstart : s.step? (.start "f()") = some (sized, none) := by decide +kernel
  obtain ⟨changes, hfail⟩ : ∃ changes, Course Script.Evaluator.script.continuation? closed .empty
      changes (.failed (.io "broken pipe")) last .empty :=
    ⟨_, .advances (.move (some "broken pipe") nofun rfl rfl) (.ends (.move none nofun rfl rfl))⟩
  have hmeanwhile : Course Script.Evaluator.script.continuation? locked .empty
      (⟨.others, locked, locked.hangUp⟩ :: ⟨.others, locked.hangUp, ending⟩ ::
        ⟨.others, ending, closed⟩ :: changes) (.failed (.io "broken pipe")) last .empty :=
    .meanwhile .hangUp (.meanwhile (.receive rfl) (.meanwhile (.release rfl) hfail))
  have h := Attempt.begun hstart (.advances (.move none nofun rfl rfl) hmeanwhile)
  obtain ⟨hpending, -, hactors, -, hclosed, hlock⟩ := failed_usable h
  exact ⟨_, _, h, hpending, hactors, hlock, hclosed ⟨.others, ending, closed⟩
    (.tail _ (.tail _ (.tail _ (.tail _ (.head _))))) rfl nofun rfl⟩

end Session

end RemoteEval.Shell
