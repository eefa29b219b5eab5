import RemoteEval.Shell.Activity

/-!
# What a step of a session does

`Session.Turn` lists what a step can make of a session, with what it finds there. Every step is one
of these turns (`Step.turn`), so that what all turns keep, a session keeps whatever is done with it.
-/

namespace RemoteEval.Shell.Session

open Wire (LinkError Sentinel)

/-- What a step makes of a session, and how a submission ends with it. -/
inductive Turn (s : Session) : Option Submitted → Session → Prop
  | start {line : String} (hs : s.submission = .none)
      (hfits : Text.octetCount (s.joined line) ≤ s.hostCapacity) :
      Turn s none { s with submission := .sized (s.joined line) }
  | tooLong {line : String} (hs : s.submission = .none)
      (hlong : s.hostCapacity < Text.octetCount (s.joined line)) :
      Turn s (some (.failed (.tooLarge (Text.octetCount (s.joined line)) s.hostCapacity))) s
  | take {text : String} (hs : s.submission = .sized text) (hl : s.lock ≠ .closed) :
      Turn s none { s with lock := .busy, submission := .locked text }
  | refuse {text : String} (hs : s.submission = .sized text) (hl : s.lock = .closed) :
      Turn s (some (.failed .closed)) { s with submission := .none }
  | write {text : String} (hs : s.submission = .locked text) :
      Turn s none
        { s with submission := .written text, written := s.written ++ [Text.encode text] }
  | fail {text : String} (detail : String) (hs : s.submission = .locked text) :
      Turn s none { s with submission := .unsent (.io detail) }
  | giveBack {e : LinkError} (hs : s.submission = .unsent e) :
      Turn s (some (.failed e)) s.giveBack
  | settle {text : String} (isOpen : Bool) (pending : String) (hs : s.submission = .written text) :
      Turn s (some (.sent isOpen)) { s with pending, submission := .none }
  | clearPending (hs : s.submission = .none) : Turn s none s.clearPending
  | interrupt : Turn s none (s.writeSentinel .interrupt)
  | startReceiver (hr : s.receiver = .unstarted) : Turn s none { s with receiver := .waiting }
  | started (hr : s.receiver ≠ .unstarted) : Turn s none s
  | arrive (payload : List UInt8) : Turn s none (s.arrive payload)
  | hangUp : Turn s none s.hangUp
  | receive {frame : List UInt8} {rest : List (List UInt8)} (hr : s.receiver = .waiting)
      (hin : s.inbox = frame :: rest) :
      Turn s none { s with receiver := .holding frame, inbox := rest }
  | finish (hr : s.receiver = .waiting) : Turn s none s.breakOff
  | print {frame : List UInt8} (hr : s.receiver = .holding frame) :
      Turn s none { s with receiver := .printed, printed := s.printed ++ printout frame }
  | release (hr : s.receiver = .printed) :
      Turn s none { s with receiver := .waiting, lock := .idle }
  | close (hr : s.receiver = .ending) : Turn s none { s with receiver := .stopped, lock := .closed }
  | load (inbox : List (List UInt8)) (hungUp : Bool) (hs : s.submission = .none)
      (hr : s.receiver = .unstarted) :
      Turn s none { s.writeSentinel .resources with inbox, hungUp }

variable {s next : Session} {outcome : Option Submitted}

/-! ## What a receiver does -/

theorem receive?_eq_some_iff : s.receive? = some next ↔ s.receiver = .waiting ∧
    ((∃ frame rest, s.inbox = frame :: rest ∧
        next = { s with receiver := .holding frame, inbox := rest }) ∨
      (s.inbox = [] ∧ s.hungUp = true ∧ next = s.breakOff)) := by
  unfold receive?
  cases hr : s.receiver <;> cases hin : s.inbox <;> simp [breakOff, hin, and_assoc, @eq_comm _ next]

theorem print?_eq_some_iff : s.print? = some next ↔ ∃ frame, s.receiver = .holding frame ∧
    next = { s with receiver := .printed, printed := s.printed ++ printout frame } := by
  unfold print?
  cases hr : s.receiver <;> simp [@eq_comm _ next]

theorem release?_eq_some_iff : s.release? = some next ↔
    (s.receiver = .printed ∧ next = { s with receiver := .waiting, lock := .idle }) ∨
      (s.receiver = .ending ∧ next = { s with receiver := .stopped, lock := .closed }) := by
  unfold release?
  cases hr : s.receiver <;> simp [@eq_comm _ next]

/-! ## Every step is a turn -/

theorem foldl_deliver_eq (answer : List Delivery) (s : Session) :
    ∃ inbox hungUp, answer.foldl deliver s = { s with inbox, hungUp } := by
  induction answer generalizing s with
  | nil => exact ⟨s.inbox, s.hungUp, rfl⟩
  | cons d answer ih =>
    obtain ⟨inbox, hungUp, hrest⟩ := ih (s.deliver d)
    refine ⟨inbox, hungUp, hrest.trans ?_⟩
    unfold deliver
    split
    · rfl
    · cases d <;> rfl

/-- A session whose receiver was started loads nothing ; before that, the exchange leaves only the
request and what has arrived. -/
theorem Turn.of_load {σ : Type} (answer : List Delivery) (exclusions : List String)
    (load : String → σ → Bool × σ) (m : σ) (hs : s.submission = .none) :
    s.Turn none (s.loadStartup answer exclusions load m).2 := by
  unfold loadStartup requestResources
  by_cases hr : s.receiver = .unstarted
  · obtain ⟨inbox, hungUp, hfold⟩ := foldl_deliver_eq answer (s.writeSentinel .resources)
    simp only [hr, if_true, hfold]
    unfold takeListing
    cases inbox with
    | nil => exact .load [] hungUp hs hr
    | cons frame rest => exact .load rest hungUp hs hr
  · simp only [hr, if_false]
    exact .started hr

theorem Turn.of_move {move : Move} (h : s.step? move = some (next, outcome)) :
    s.Turn outcome next := by
  cases move with
  | start line =>
    simp only [step?, Session.start, Wire.checkSize] at h
    split at h
    · next hs =>
      by_cases hlong : s.hostCapacity < Text.octetCount (s.joined line)
      · simp only [hlong, if_true] at h
        cases h
        exact .tooLong hs hlong
      · simp only [hlong, if_false] at h
        cases h
        exact .start hs (Nat.le_of_not_lt hlong)
    · cases h
  | take =>
    simp only [step?, Session.take] at h
    split at h
    · next text hs =>
      by_cases hl : s.lock = .closed
      · simp only [hl, if_true] at h
        cases h
        exact hl ▸ .refuse hs hl
      · simp only [hl, if_false] at h
        cases h
        exact .take hs hl
    · cases h
  | write failure =>
    simp only [step?] at h
    split at h <;> cases h
    cases failure with
    | none => exact .write ‹_›
    | some detail => exact .fail detail ‹_›
  | giveBack =>
    simp only [step?] at h
    split at h <;> cases h
    exact .giveBack ‹_›
  | settle =>
    simp only [step?, Session.settle] at h
    split at h
    · split at h <;> cases h <;> exact .settle _ _ ‹_›
    · cases h
  | clearPending =>
    simp only [step?] at h
    split at h <;> cases h
    exact .clearPending ‹_›
  | interrupt =>
    cases h
    exact .interrupt
  | startReceiver =>
    simp only [step?, Session.startReceiver] at h
    split at h <;> cases h
    · exact .startReceiver ‹_›
    · exact .started ‹_›
  | arrive payload =>
    simp only [step?] at h
    split at h <;> cases h
    exact .arrive payload
  | hangUp =>
    cases h
    exact .hangUp
  | receive =>
    obtain ⟨_, hreceive, hpair⟩ := Option.map_eq_some_iff.1 h
    cases hpair
    rcases receive?_eq_some_iff.1 hreceive with ⟨hr, ⟨frame, rest, hin, rfl⟩ | ⟨-, -, rfl⟩⟩
    · exact .receive hr hin
    · exact .finish hr
  | print =>
    obtain ⟨_, hprint, hpair⟩ := Option.map_eq_some_iff.1 h
    cases hpair
    obtain ⟨frame, hr, rfl⟩ := print?_eq_some_iff.1 hprint
    exact .print hr
  | release =>
    obtain ⟨_, hrelease, hpair⟩ := Option.map_eq_some_iff.1 h
    cases hpair
    rcases release?_eq_some_iff.1 hrelease with ⟨hr, rfl⟩ | ⟨hr, rfl⟩
    · exact .release hr
    · exact .close hr

/-- Every step is a turn. -/
theorem Step.turn (h : s.Step outcome next) : s.Turn outcome next := by
  cases h with
  | move h => exact .of_move h
  | settle shadow hs =>
    unfold settleWith
    split <;> exact .settle _ _ hs
  | load answer exclusions load m hs => exact .of_load answer exclusions load m hs
  | breakOff hr => exact .finish hr

end RemoteEval.Shell.Session
