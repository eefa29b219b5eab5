import RemoteEval.Proofs.Shell.Accounts
import RemoteEval.Proofs.Shell.Attempt
import RemoteEval.Shell.Draft

/-!
# The prompt and the open statement stay in step

Whether a statement is open is kept twice : the prompt keeps a flag, the session the text. However a
line, an interrupt, a refusal or a verdict of the shadow changes one of them it changes the other,
so that whenever the prompt is shown it tells of a statement that is open, and what is open are the
lines that were sent since the last one was complete, rejected or dropped (`prompt_in_step`).

While a line is submitted the two do not agree yet. What holds then is said by where the submission
is (`Standing`) : until the text is written both are as they were before the line, and once it is
written only the verdict matters.
-/

namespace RemoteEval.Shell

open Script (Memory)
open Wire (LinkError Sentinel)

/-! ## Drafts -/

namespace Draft

variable {d : Draft} {c : Nat} {line : String}

/-- No open line is empty, and the open lines can be continued. -/
structure Proper (d : Draft) : Prop where
  /-- No open line is empty. -/
  ne_empty : ∀ line ∈ d.lines, line ≠ ""
  /-- The open lines can be continued. -/
  incomplete : d.lines ≠ [] → Script.parse d.text.toList = .error .incomplete

theorem text_empty : empty.text = "" :=
  String.intercalate_nil

theorem proper_empty : empty.Proper :=
  ⟨nofun, fun h => absurd rfl h⟩

theorem Proper.text_eq_empty_iff (h : d.Proper) : d.text = "" ↔ d.lines = [] := by
  unfold text
  rcases hlines : d.lines with _ | ⟨first, rest⟩
  · simp
  · have hfirst : first ≠ "" := h.ne_empty first (by simp [hlines])
    rcases rest with _ | ⟨second, rest⟩ <;> simp [hfirst]

theorem Proper.continued_text (h : d.Proper) (line : String) :
    continued d.text line = d.textWith line := by
  unfold continued textWith
  split
  · next hempty => simp [h.text_eq_empty_iff.1 hempty]
  · next hne =>
    have hlines := mt h.text_eq_empty_iff.2 hne
    rw [String.intercalate_append_of_ne_nil hlines (by simp), String.intercalate_singleton]
    rfl

theorem text_send (d : Draft) (line : String) :
    (d.send line).text = leftOpen (d.textWith line) := by
  unfold text send leftOpen
  dsimp only
  split <;> simp_all [textWith]

theorem ne_empty_of_command (h : LineKind.of line = .command) : line ≠ "" :=
  continued_ne_empty "" h

theorem Proper.textWith_ne_empty (h : d.Proper) (hk : LineKind.of line = .command) :
    d.textWith line ≠ "" := by
  rw [← h.continued_text]
  exact continued_ne_empty _ hk

theorem Proper.send (h : d.Proper) (hk : LineKind.of line = .command) : (d.send line).Proper := by
  unfold Draft.send
  split
  · next hopen =>
    refine ⟨fun l hl => ?_, fun _ => hopen⟩
    rcases List.mem_append.1 hl with hl | hl
    · exact h.ne_empty l hl
    · exact List.mem_singleton.1 hl ▸ ne_empty_of_command hk
  · exact ⟨nofun, fun hne => absurd rfl hne⟩

theorem read_of_ne_command (h : LineKind.of line ≠ .command) : d.read c (.line line) = d := by
  unfold Draft.read
  dsimp only
  split
  · next hk => exact absurd hk h
  · rfl

theorem read_of_long (h : LineKind.of line = .command)
    (hlong : c < Text.octetCount (d.textWith line)) : d.read c (.line line) = d := by
  simp only [Draft.read, h, if_pos hlong]

theorem read_of_fits (h : LineKind.of line = .command)
    (hfits : ¬c < Text.octetCount (d.textWith line)) : d.read c (.line line) = d.send line := by
  simp only [Draft.read, h, if_neg hfits]

theorem of_snoc (c : Nat) (entries : List Entry) (e : Entry) :
    of c (entries ++ [e]) = (of c entries).read c e := by
  simp [of]

theorem Proper.read (h : d.Proper) (c : Nat) (e : Entry) : (d.read c e).Proper := by
  rcases e with line | _
  · by_cases hk : LineKind.of line = .command
    · by_cases hlong : c < Text.octetCount (d.textWith line)
      · exact (read_of_long hk hlong).symm ▸ h
      · exact (read_of_fits hk hlong).symm ▸ h.send hk
    · exact (read_of_ne_command hk).symm ▸ h
  · exact ⟨nofun, fun hne => absurd rfl hne⟩

theorem Proper.foldl (h : d.Proper) (c : Nat) (entries : List Entry) :
    (entries.foldl (Draft.read c) d).Proper := by
  induction entries generalizing d with
  | nil => exact h
  | cons e entries ih => exact ih (h.read c e)

theorem proper_of (c : Nat) (entries : List Entry) : (of c entries).Proper :=
  proper_empty.foldl c entries

end Draft

/-! ## Verdicts -/

/-- A shadow that evaluates scripts keeps a text open if it is incomplete. -/
theorem Session.settleWith_continuation? (s : Session) {text : String} (hne : text ≠ "") :
    s.settleWith Script.continuation? text =
      (decide (leftOpen text ≠ ""), { s with pending := leftOpen text, submission := .none }) := by
  unfold settleWith Script.continuation? leftOpen
  rcases Script.parse text.toList with (_ | ⟨position, cause⟩) | program
  · simp [hne]
  · simp
  · simp

/-! ## Where a prompt stands -/

/-- The prompt and the session keep what a draft says, over a stream to which `w` was written. -/
structure Session.Holds (w : List (List UInt8)) (d : Draft) (continuing : Bool) (s : Session) :
    Prop where
  /-- The session keeps the open lines. -/
  pending : s.pending = d.text
  /-- The prompt knows whether there are some. -/
  continuing : continuing = decide (d.text ≠ "")
  /-- The texts were written, and interrupts. -/
  written : withoutInterrupts s.written = withoutInterrupts (w ++ d.sent.map Text.encode)

/-- Where a prompt stands that has read entries. -/
inductive Standing (c : Nat) (w : List (List UInt8)) :
    List Entry → Phase → (continuing : Bool) → Session → Prop
  | reading {entries : List Entry} {continuing : Bool} {s : Session} (hs : s.submission = .none)
      (h : s.Holds w (.of c entries) continuing) : Standing c w entries .reading continuing s
  | waiting {entries : List Entry} {continuing : Bool} {s : Session} (hs : s.submission = .none)
      (h : s.Holds w (.of c entries) continuing) : Standing c w entries .waiting continuing s
  | unwritten {entries : List Entry} {line : String} {continuing : Bool} {s : Session}
      (hk : LineKind.of line = .command)
      (hfits : ¬c < Text.octetCount ((Draft.of c entries).textWith line))
      (hs : s.submission = .sized ((Draft.of c entries).textWith line) ∨
        s.submission = .locked ((Draft.of c entries).textWith line))
      (h : s.Holds w (.of c entries) continuing) :
      Standing c w (entries ++ [.line line]) .submitting continuing s
  | unsent {entries : List Entry} {detail : String} {continuing : Bool} {s : Session}
      (hs : s.submission = .unsent (.io detail)) : Standing c w entries .submitting continuing s
  | written {entries : List Entry} {line : String} {continuing : Bool} {s : Session}
      (hk : LineKind.of line = .command)
      (hfits : ¬c < Text.octetCount ((Draft.of c entries).textWith line))
      (hs : s.submission = .written ((Draft.of c entries).textWith line))
      (h : withoutInterrupts s.written =
        withoutInterrupts (w ++ ((Draft.of c entries).send line).sent.map Text.encode)) :
      Standing c w (entries ++ [.line line]) .submitting continuing s
  | ended {entries : List Entry} {exit : Exit} {continuing : Bool} {s : Session} :
      Standing c w entries (.ended exit) continuing s

variable {c : Nat} {w : List (List UInt8)} {entries : List Entry} {phase : Phase}
  {continuing : Bool} {s next : Session} {d : Draft} {b₀ b after : Bridge} {m m' : Memory}

theorem withoutInterrupts_interrupt (written : List (List UInt8)) :
    withoutInterrupts (written ++ [Sentinel.interrupt.octets]) = withoutInterrupts written := by
  simp [withoutInterrupts]

theorem withoutInterrupts_congr {written written' : List (List UInt8)}
    (h : withoutInterrupts written = withoutInterrupts written') (bs : List UInt8) :
    withoutInterrupts (written ++ [bs]) = withoutInterrupts (written' ++ [bs]) := by
  simp only [withoutInterrupts, List.filter_append] at h ⊢
  rw [h]

theorem Session.Meanwhile.withoutInterrupts_eq (h : s.Meanwhile next) :
    withoutInterrupts next.written = withoutInterrupts s.written := by
  rcases h.same.2.2.2 with hsame | hmore
  · rw [hsame]
  · rw [hmore, withoutInterrupts_interrupt]

theorem Session.holds_empty (h : s.pending = "") : s.Holds s.written .empty false :=
  ⟨h.trans Draft.text_empty.symm, by simp [Draft.text_empty], by simp [Draft.empty]⟩

theorem Session.Holds.meanwhile (hs : s.Holds w d continuing) (h : s.Meanwhile next) :
    next.Holds w d continuing :=
  ⟨h.same.2.1.trans hs.pending, hs.continuing, h.withoutInterrupts_eq.trans hs.written⟩

theorem Session.Holds.continued_eq (h : s.Holds w d continuing) (hd : d.Proper) (line : String) :
    continued s.pending line = d.textWith line := by
  rw [h.pending, hd.continued_text]

theorem Session.Holds.written_send (h : s.Holds w d continuing) (line : String) :
    withoutInterrupts (s.written ++ [Text.encode (d.textWith line)]) =
      withoutInterrupts (w ++ (d.send line).sent.map Text.encode) := by
  have hmore := withoutInterrupts_congr h.written (Text.encode (d.textWith line))
  rw [hmore]
  simp [Draft.send]

/-- Whatever others do, the prompt stands where it stood. -/
theorem Standing.meanwhile (hs : Standing c w entries phase continuing s) (h : s.Meanwhile next) :
    Standing c w entries phase continuing next := by
  have hsub := h.same.1
  cases hs with
  | reading hs hholds => exact .reading (hsub.trans hs) (hholds.meanwhile h)
  | waiting hs hholds => exact .waiting (hsub.trans hs) (hholds.meanwhile h)
  | unwritten hk hfits hs hholds =>
    exact .unwritten hk hfits (hsub ▸ hs) (hholds.meanwhile h)
  | unsent hs => exact .unsent (hsub.trans hs)
  | written hk hfits hs hwritten =>
    exact .written hk hfits (hsub.trans hs) (h.withoutInterrupts_eq.trans hwritten)
  | ended => exact .ended

theorem Standing.of_reading (h : Standing c w entries .reading continuing s) :
    s.submission = .none ∧ s.Holds w (.of c entries) continuing := by
  cases h
  exact ⟨‹_›, ‹_›⟩

/-- A text that is not written yet is that of the line that was read last. -/
theorem Standing.of_unwritten {text : String} (h : Standing c w entries .submitting continuing s)
    (hs : s.submission = .sized text ∨ s.submission = .locked text) :
    ∃ before line, entries = before ++ [.line line] ∧ LineKind.of line = .command ∧
      text = (Draft.of c before).textWith line ∧ ¬c < Text.octetCount text ∧
      s.Holds w (.of c before) continuing := by
  cases h with
  | unwritten hk hfits hsub hholds =>
    refine ⟨_, _, rfl, hk, ?_⟩
    rcases hs with hs | hs <;> rcases hsub with hsub | hsub <;> cases hs.symm.trans hsub <;>
      exact ⟨rfl, hfits, hholds⟩
  | unsent hsub => rcases hs with hs | hs <;> cases hs.symm.trans hsub
  | written _ _ hsub => rcases hs with hs | hs <;> cases hs.symm.trans hsub

/-- A text that was written is that of the line that was read last. -/
theorem Standing.of_written {text : String} (h : Standing c w entries .submitting continuing s)
    (hs : s.submission = .written text) :
    ∃ before line, entries = before ++ [.line line] ∧ LineKind.of line = .command ∧
      text = (Draft.of c before).textWith line ∧ ¬c < Text.octetCount text ∧
      withoutInterrupts s.written =
        withoutInterrupts (w ++ ((Draft.of c before).send line).sent.map Text.encode) := by
  cases h with
  | unwritten _ _ hsub => rcases hsub with hsub | hsub <;> cases hs.symm.trans hsub
  | unsent hsub => cases hs.symm.trans hsub
  | written hk hfits hsub hwritten =>
    cases hs.symm.trans hsub
    exact ⟨_, _, rfl, hk, rfl, hfits, hwritten⟩

theorem Standing.of_unsent {e : LinkError} (h : Standing c w entries .submitting continuing s)
    (hs : s.submission = .unsent e) : ∃ detail, e = .io detail := by
  cases h with
  | unwritten _ _ hsub => rcases hsub with hsub | hsub <;> cases hs.symm.trans hsub
  | unsent hsub =>
    cases hs.symm.trans hsub
    exact ⟨_, rfl⟩
  | written _ _ hsub => cases hs.symm.trans hsub

/-- A prompt that was fresh once and has read entries since. -/
structure Tracks (b₀ b : Bridge) (entries : List Entry) : Prop where
  /-- The host receives as much as it did. -/
  capacity : b.session.hostCapacity = b₀.session.hostCapacity
  /-- What was read are the first entries. -/
  read : b₀.entries = entries ++ b.entries
  /-- The prompt stands where these lead to. -/
  standing : Standing b₀.session.hostCapacity b₀.session.written entries b.phase b.continuing
    b.session

theorem Bridge.IsFresh.tracks (h : b₀.IsFresh) : Tracks b₀ b₀ [] := by
  refine ⟨rfl, rfl, ?_⟩
  rw [h.phase, h.continuing]
  exact .reading h.submission (Session.holds_empty h.pending)

/-! ## The prompt reads -/

theorem Session.Holds.clearPending (h : s.Holds w d continuing) :
    s.clearPending.Holds w { d with lines := [] } false :=
  ⟨by simp [Session.clearPending, Draft.text], by simp [Draft.text], h.written⟩

theorem Tracks.read_snoc {e : Entry} {rest : List Entry} (ht : Tracks b₀ b entries)
    (he : b.entries = e :: rest) : b₀.entries = (entries ++ [e]) ++ rest := by
  rw [ht.read, he, List.append_assoc, List.singleton_append]

/-- An entry was read and the prompt is about to read again. -/
theorem Tracks.again {e : Entry} {rest : List Entry} (ht : Tracks b₀ b entries)
    (he : b.entries = e :: rest) (hentries : after.entries = rest) (hp : after.phase = .reading)
    (hcapacity : after.session.hostCapacity = b.session.hostCapacity)
    (hs : after.session.submission = .none)
    (hholds : after.session.Holds b₀.session.written
      ((Draft.of b₀.session.hostCapacity entries).read b₀.session.hostCapacity e)
      after.continuing) : Tracks b₀ after (entries ++ [e]) := by
  refine ⟨hcapacity.trans ht.capacity, hentries ▸ ht.read_snoc he, ?_⟩
  rw [hp]
  exact .reading hs (Draft.of_snoc _ _ _ ▸ hholds)

theorem Bridge.read_interrupt {rest : List Entry} (h : b.entries = .interrupt :: rest) :
    b.read = { ({ b with toDialogue := b.showPrompt } : Bridge) with
      entries := rest
      session := (b.session.writeSentinel .interrupt).clearPending
      continuing := false } := by
  simp only [Bridge.read, h]

/-- Reading an entry keeps the prompt in step. -/
theorem Tracks.read_entry (ht : Tracks b₀ b entries) (hp : b.phase = .reading) :
    ∃ entries', Tracks b₀ b.read entries' := by
  have hstanding := ht.standing
  rw [hp] at hstanding
  obtain ⟨hs, hholds⟩ := hstanding.of_reading
  rcases he : b.entries with _ | ⟨line | _, rest⟩
  · rw [Bridge.read_nil he]
    exact ⟨entries, ht.capacity, he ▸ ht.read, .ended⟩
  · rw [Bridge.read_line he]
    rcases hk : LineKind.of line with _ | _ | _
    · rw [Bridge.enter_blank hk]
      refine ⟨_, ht.again he rfl hp rfl hs ?_⟩
      rw [Draft.read_of_ne_command (by simp [hk])]
      exact hholds
    · rw [Bridge.enter_quit hk]
      exact ⟨entries ++ [.line line], ht.capacity, ht.read_snoc he, .ended⟩
    · have htext := hholds.continued_eq (Draft.proper_of _ entries) line
      by_cases hlong : b₀.session.hostCapacity <
          Text.octetCount ((Draft.of b₀.session.hostCapacity entries).textWith line)
      · rw [Bridge.enter_command_of_long hk (by simpa [htext, ht.capacity] using hlong)]
        refine ⟨_, ht.again he rfl rfl rfl hs ?_⟩
        rw [Draft.read_of_long hk hlong]
        exact hholds
      · rw [Bridge.enter_command_of_le hk (by simpa [htext, ht.capacity] using hlong)]
        refine ⟨entries ++ [.line line], ht.capacity, ht.read_snoc he, ?_⟩
        refine .unwritten hk hlong (.inl (congrArg _ htext)) ?_
        exact ⟨hholds.pending, hholds.continuing, hholds.written⟩
  · rw [Bridge.read_interrupt he]
    exact ⟨_, ht.again he rfl hp rfl hs (hholds.meanwhile .interrupt).clearPending⟩

/-! ## The prompt submits -/

/-- A step of a submission keeps the prompt in step, and a shadow that evaluates scripts as it
is. -/
theorem Tracks.submit {actor : Actor} {outcome : Option Submitted} (ht : Tracks b₀ b entries)
    (hp : b.phase = .submitting)
    (h : b.session.Advances Script.Evaluator.script.continuation? m actor outcome s m') :
    m' = m ∧ Tracks b₀ (b.proceed s outcome) entries := by
  have hstanding := ht.standing
  rw [hp] at hstanding
  have hstride := h.stride
  -- A prompt that is refused or has lost its stream ends, and needs no longer be in step.
  cases hstride with
  | take hsized =>
    obtain ⟨before, line, rfl, hk, rfl, hfits, hholds⟩ := hstanding.of_unwritten (.inl hsized)
    refine ⟨rfl, ht.capacity, ht.read, ?_⟩
    exact .unwritten hk hfits (.inr rfl) ⟨hholds.pending, hholds.continuing, hholds.written⟩
  | refuse => exact ⟨rfl, ht.capacity, ht.read, .ended⟩
  | write hlocked =>
    obtain ⟨before, line, rfl, hk, rfl, hfits, hholds⟩ := hstanding.of_unwritten (.inr hlocked)
    exact ⟨rfl, ht.capacity, ht.read, .written hk hfits rfl (hholds.written_send line)⟩
  | fail detail hlocked => exact ⟨rfl, ht.capacity, ht.read, .unsent rfl⟩
  | giveBack hunsent =>
    obtain ⟨detail, rfl⟩ := hstanding.of_unsent hunsent
    exact ⟨rfl, ht.capacity, ht.read, .ended⟩
  | ask hwritten =>
    obtain ⟨before, line, rfl, hk, rfl, hfits, htexts⟩ := hstanding.of_written hwritten
    -- The verdict sets the flag and the text at once, whatever they were before.
    have hne := (Draft.proper_of b₀.session.hostCapacity before).textWith_ne_empty hk
    have hsettle : b.session.settleWith
        (fun t => (Script.Evaluator.script.continuation? t m).1) _ = _ :=
      b.session.settleWith_continuation? hne
    rw [hsettle]
    refine ⟨rfl, ht.capacity, ht.read, .waiting rfl ?_⟩
    rw [Draft.of_snoc, Draft.read_of_fits hk hfits]
    exact ⟨(Draft.text_send _ line).symm, by rw [Draft.text_send]; rfl, htexts⟩

/-! ## The prompt is shown -/

/-- Whatever happens keeps the prompt in step, and the shadow as it is. -/
theorem Tracks.happens (ht : Tracks b₀ b entries)
    (h : b.Happens Script.Evaluator.script.continuation? m after m') :
    m' = m ∧ ∃ entries', Tracks b₀ after entries' := by
  cases h with
  | read hp => exact ⟨rfl, ht.read_entry hp⟩
  | lose hp he =>
    have hstanding := ht.standing
    rw [hp] at hstanding
    obtain ⟨hs, hholds⟩ := hstanding.of_reading
    rw [Bridge.read_interrupt he]
    exact ⟨rfl, _, ht.again he rfl hp rfl hs hholds.clearPending⟩
  | submit hp h =>
    obtain ⟨hm, ht⟩ := ht.submit hp h
    exact ⟨hm, entries, ht⟩
  | wake h =>
    refine ⟨rfl, entries, ?_⟩
    have hstanding := ht.standing
    simp only [Bridge.act?] at h
    split at h
    · next hp _ =>
      cases h
      rw [hp] at hstanding
      cases hstanding with
      | waiting hs hholds => exact ⟨ht.capacity, ht.read, .reading hs hholds⟩
    · cases h
      exact ⟨ht.capacity, ht.read, .ended⟩
    · cases h
  | meanwhile h =>
    exact ⟨rfl, entries, h.same.2.2.1.trans ht.capacity, ht.read, ht.standing.meanwhile h⟩
  | host => exact ⟨rfl, entries, ht.capacity, ht.read, ht.standing⟩

theorem Bridge.Goes.tracks (hb : b₀.IsFresh)
    (h : b₀.Goes Script.Evaluator.script.continuation? m after m') :
    m' = m ∧ ∃ entries, Tracks b₀ after entries := by
  induction h with
  | refl => exact ⟨rfl, [], hb.tracks⟩
  | tail _ hlast ih =>
    obtain ⟨rfl, entries, ht⟩ := ih
    exact ht.happens hlast

theorem Bridge.prompts_read (b : Bridge) : b.read.prompts = b.showPrompt.prompts := by
  rcases he : b.entries with _ | ⟨line | _, rest⟩
  · rw [Bridge.read_nil he]
  · rw [Bridge.read_line he, Bridge.enter_eq]
    rcases LineKind.of line with _ | _ | _
    · rfl
    · rfl
    · rw [Session.start_eq]
      by_cases hlong : b.session.hostCapacity <
          Text.octetCount (continued b.session.pending line) <;> simp [hlong, Bridge.proceed]
  · rw [Bridge.read_interrupt he]

/-- A prompt that is about to read is in step with its session. -/
theorem Session.Holds.inStep {entries : List Entry}
    (h : b.session.Holds w (.of c entries) b.continuing) : b.InStep (.of c entries) := by
  have hproper := Draft.proper_of c entries
  have hopen : b.session.pending ≠ "" ↔ (Draft.of c entries).lines ≠ [] := by
    rw [h.pending]
    exact not_congr hproper.text_eq_empty_iff
  refine ⟨?_, fun hne => ?_, h.pending, hopen⟩
  · rw [Bridge.prompts_read]
    simp only [Dialogue.showPrompt, h.continuing, h.pending, decide_eq_true_eq]
  · rw [h.pending]
    exact hproper.incomplete (hopen.1 hne)

/-! ## Runs of moves -/

theorem Bridge.Goes.trans {σ : Type} {ask : Shadow σ} {mid next : Bridge} {m m' m'' : σ}
    (h : b.Goes ask m mid m') (hrest : mid.Goes ask m' next m'') : b.Goes ask m next m'' := by
  induction hrest with
  | refl => exact h
  | tail _ hlast ih => exact ih.tail hlast

theorem Bridge.happens_of_act? {move : Bridge.Move} (h : b.act? move = some after) (m : Memory) :
    b.Happens Script.Evaluator.script.continuation? m after m := by
  cases move with
  | read =>
    simp only [act?] at h
    split at h <;> cases h
    exact .read ‹_›
  | submit failure =>
    simp only [act?] at h
    split at h
    · next hp =>
      obtain ⟨move, hmove, h⟩ := Option.bind_eq_some_iff.1 h
      obtain ⟨⟨s, outcome⟩, hstep, h⟩ := Option.bind_eq_some_iff.1 h
      cases h
      by_cases hwritten : ∃ text, b.session.submission = .written text
      · obtain ⟨text, hwritten⟩ := hwritten
        simp only [hwritten, Submission.next?, Option.some.injEq] at hmove
        subst hmove
        simp only [Session.step?, hwritten] at hstep
        cases hstep
        exact .submit hp (.ask hwritten)
      · exact .submit hp (.move failure (not_exists.1 hwritten) hmove hstep)
    · cases h
  | wake => exact .wake h
  | receive =>
    obtain ⟨move, hmove, h⟩ := Option.bind_eq_some_iff.1 h
    obtain ⟨⟨s, outcome⟩, hstep, h⟩ := Option.bind_eq_some_iff.1 h
    cases h
    refine .meanwhile ?_
    cases hr : b.session.receiver with
    | unstarted | stopped => simp [hr, Receiver.next?] at hmove
    | waiting =>
      obtain rfl : .receive = move := by simpa [hr, Receiver.next?] using hmove
      obtain ⟨next, hnext, hpair⟩ := Option.map_eq_some_iff.1 hstep
      cases hpair
      exact .receive hnext
    | holding frame =>
      obtain rfl : .print = move := by simpa [hr, Receiver.next?] using hmove
      obtain ⟨next, hnext, hpair⟩ := Option.map_eq_some_iff.1 hstep
      cases hpair
      exact .print hnext
    | printed | ending =>
      obtain rfl : .release = move := by simpa [hr, Receiver.next?] using hmove
      obtain ⟨next, hnext, hpair⟩ := Option.map_eq_some_iff.1 hstep
      cases hpair
      exact .release hnext
  | host move =>
    obtain ⟨host, -, h⟩ := Option.bind_eq_some_iff.1 h
    cases h
    exact .host host

/-- Payloads arrive, unless the connection was closed. -/
theorem Bridge.goes_deliver {σ : Type} (ask : Shadow σ) (m : σ) (payloads : List (List UInt8))
    (b : Bridge) :
    b.Goes ask m
      { b with session := (payloads.map Delivery.payload).foldl Session.deliver b.session } m := by
  induction payloads generalizing b with
  | nil => exact .refl
  | cons p payloads ih =>
    have hfirst : b.Goes ask m { b with session := b.session.deliver (.payload p) } m := by
      by_cases hclosed : b.session.hungUp = true
      · rw [show b.session.deliver (.payload p) = b.session by simp [Session.deliver, hclosed]]
        exact .refl
      · rw [show b.session.deliver (.payload p) = b.session.arrive p by
          simp [Session.deliver, hclosed]]
        exact .tail .refl (.meanwhile (.arrive p (by simpa using hclosed)))
    exact hfirst.trans (ih _)

theorem Bridge.goes_of_step? {move : Bridge.Move} (h : b.step? move = some after) (m : Memory) :
    b.Goes Script.Evaluator.script.continuation? m after m := by
  obtain ⟨acted, hact, rfl⟩ := Option.map_eq_some_iff.1 h
  have hacted : b.Goes Script.Evaluator.script.continuation? m acted m :=
    .tail .refl (happens_of_act? hact m)
  exact (hacted.trans (goes_deliver _ _ _ _)).tail (.host _)

/-- Moves in any order are among what can happen. -/
theorem Bridge.goes_of_run? {moves : List Bridge.Move} (h : b.run? moves = some after)
    (m : Memory) : b.Goes Script.Evaluator.script.continuation? m after m := by
  induction moves generalizing b with
  | nil =>
    cases h
    exact .refl
  | cons move moves ih =>
    simp only [run?] at h
    split at h
    · next hstep => exact (goes_of_step? hstep m).trans (ih h)
    · cases h

/-- **The prompt and the open statement stay in step.** Whatever is read at a prompt that was fresh
once, and whatever the host, the receiver and interrupts do, the shadow keeps its variables ; and
whenever the prompt is about to be shown, it shows whether a statement is open, what is open is
incomplete and consists of the lines that were sent since the last one was complete, rejected or
dropped, and the texts of such lines are what was written, apart from interrupts. -/
theorem prompt_in_step (hb : b₀.IsFresh)
    (h : b₀.Goes Script.Evaluator.script.continuation? m b m') :
    m' = m ∧ ∃ read, b₀.entries = read ++ b.entries ∧
      (b.phase = .reading →
        b.InStep (.of b₀.session.hostCapacity read) ∧
        withoutInterrupts b.session.written = withoutInterrupts (b₀.session.written ++
          (Draft.of b₀.session.hostCapacity read).sent.map Text.encode)) := by
  obtain ⟨hm, entries, ht⟩ := h.tracks hb
  refine ⟨hm, entries, ht.read, fun hp => ?_⟩
  have hstanding := ht.standing
  rw [hp] at hstanding
  obtain ⟨-, hholds⟩ := hstanding.of_reading
  exact ⟨hholds.inStep, hholds.written⟩

/-- A list whose first line was answered, and behind it a blank line and one that is too long. -/
def listing : Bridge :=
  .start 8 8 (.new [] .empty) (["[1,", " ", "far too long", "2]"].map .line)

/-- The first line of the list is answered, and the two lines behind it are not sent. -/
def listingMoves : List Bridge.Move :=
  [.read, .submit none, .submit none, .submit none, .host (.read 0), .host (.begin 0 .quiet),
    .host (.finish 0), .host (.answer 0), .host (.write 0), .receive, .receive, .receive, .wake,
    .read, .read]

theorem prompt_in_step_open_list :
    listing.IsFresh ∧
    ∃ b, listing.Goes Script.Evaluator.script.continuation? .empty b .empty ∧
      b.phase = .reading ∧ b.entries = [.line "2]"] ∧ b.session.pending = "[1," ∧
      b.InStep ⟨["[1,"], ["[1,"]⟩ := by
  have hfresh : listing.IsFresh := ⟨rfl, rfl, rfl, rfl⟩
  have hrun : (listing.run? listingMoves).any
      (fun b => b.phase = .reading && b.entries = [.line "2]"]) = true := by decide +kernel
  obtain ⟨b, hb, hstands⟩ := (Option.any_eq_true _ _).1 hrun
  obtain ⟨hp, he⟩ : b.phase = .reading ∧ b.entries = [.line "2]"] := by simpa using hstands
  have hgoes := Bridge.goes_of_run? hb .empty
  obtain ⟨-, read, hread, hstep⟩ := prompt_in_step hfresh hgoes
  obtain rfl : ["[1,", " ", "far too long"].map Entry.line = read := by
    rw [he] at hread
    exact List.append_cancel_right hread
  have hdraft : Draft.of 8 (["[1,", " ", "far too long"].map .line) = ⟨["[1,"], ["[1,"]⟩ := by
    decide +kernel
  have hin : b.InStep ⟨["[1,"], ["[1,"]⟩ := hdraft ▸ (hstep hp).1
  exact ⟨hfresh, b, hgoes, hp, he, hin.pending, hin⟩

end RemoteEval.Shell
