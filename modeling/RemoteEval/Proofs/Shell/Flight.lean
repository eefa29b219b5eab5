import RemoteEval.Proofs.Shell.Flow

/-!
# At most one command in flight

Nothing is in flight whenever a text is sent if and only if each text but the last is answered in a
single frame (`nothingInFlight_iff`). For then the frame for which the prompt waits is all there is
to wait for (`Flow.coming_of_locked`) ; and a text that is answered in more frames lets the prompt
go on to the next with some of them still to come (`Sound.exists_next`).
-/

namespace RemoteEval.Shell

open Host (Connection Serving)
open Script (Memory)

variable {c k : Nat} {m : Memory} {texts lines unwritten waiting : List String} {b next : Bridge}
  {conn : Connection}

/-- Everything that was written was answered in full, and all of the answers was received. -/
def Bridge.NothingInFlight (b : Bridge) : Prop :=
  b.session.inbox = [] ∧ b.served.isDone = true

/-! ## Nothing is in flight -/

/-- What is owed without any octets is nothing. -/
theorem Account.isDone (ha : Account c k m texts b lines unwritten waiting conn) (hf : Flow k m b)
    (howed : ∀ p ∈ b.owed [], p = []) : b.served.isDone = true := by
  rw [ha.owed_eq, List.append_nil] at howed
  have hends := hf.ends
  rw [ha.served_eq] at hends ⊢
  have hcommands : conn.commands ++ waiting = [] := by
    refine Classical.byContradiction fun hne => ?_
    obtain ⟨p, hp, hpne⟩ := Host.exists_mem_answers_ne_nil b.other.memory hne
    exact hpne (howed p (by simp [Connection.owed, hp]))
  have hout : conn.outgoing ++ conn.worker.payloads = [] := by
    refine Classical.byContradiction fun hne => ?_
    obtain ⟨p, hp⟩ := Option.isSome_iff_exists.1 (List.getLast?_isSome.2 hne)
    refine hends p hp (howed p ?_)
    rw [Connection.owed]
    exact List.mem_append_left _ (List.mem_of_getLast? hp)
  obtain ⟨hc, hw⟩ := List.append_eq_nil_iff.1 hcommands
  obtain ⟨ho, hpayloads⟩ := List.append_eq_nil_iff.1 hout
  have hworker : conn.worker = .free := by
    cases hworker : conn.worker with
    | free => rfl
    | evaluating | answering => simp [hworker, Host.Worker.payloads] at hpayloads
  simp [Connection.isDone, ha.serving.incoming, hc, hw, ho, hworker]

theorem nothingInFlight_of_coming (hb : Sound c k m texts b) (hf : Flow k m b)
    (h : b.coming k = 0) : b.NothingInFlight := by
  obtain ⟨_, _, _, _, ha⟩ := hb
  simp only [Bridge.coming, Nat.add_eq_zero_iff, List.length_eq_zero_iff,
    List.flatMap_eq_nil_iff] at h
  exact ⟨h.1, ha.isDone hf fun p hp => Wire.frames_eq_nil_iff.1 (h.2 p hp)⟩

theorem coming_of_nothingInFlight (hb : Sound c k m texts b) (h : b.NothingInFlight) :
    b.coming k = 0 := by
  obtain ⟨_, _, waiting, conn, ha⟩ := hb
  obtain ⟨hin, hdone⟩ := h
  rw [ha.served_eq] at hdone
  have howed := ha.serving.owed_eq_nil hdone b.other.memory []
  rw [Bridge.coming, hin, ha.owed_eq, howed]
  rfl

theorem sum_eq_length {l : List Nat} (h : ∀ n ∈ l, n = 1) : l.sum = l.length := by
  rw [List.eq_replicate_of_mem h, List.sum_replicate_nat, List.length_replicate, Nat.mul_one]

/-- A text is sent with nothing in flight if the texts before are answered in a frame each. -/
theorem Flow.coming_of_locked (hf : Flow k m b) {text : String}
    (hs : b.session.submission = .locked text)
    (hsum : (frameCounts k m b.sentTexts).sum ≤ b.sentTexts.length) : b.coming k = 0 := by
  have hbound := hf.bound
  have hheld := b.session.lock.held_le
  simp only [hs, Submission.ahead] at hbound
  omega

/-! ## On to the next text -/

theorem Prompting.phase_eq {phase : Phase} {submission : Submission} {pending : String}
    (h : Prompting c lines phase submission pending unwritten) (hs : submission ≠ .none) :
    phase = .submitting := by
  cases h <;> first | rfl | exact (hs rfl).elim

/-- A prompt that reads goes on to the next text by itself, if there is one. -/
theorem Sound.exists_locked (hb : Sound c k m texts b) (hp : b.phase = .reading)
    (hlt : b.session.written.length < texts.length) :
    ∃ next text, b.Leads next ∧ next.session.submission = .locked text ∧
      next.session.written = b.session.written ∧ next.coming k = b.coming k := by
  induction h : b.rank using less_wellFounded.induction generalizing b with
  | h rank ih =>
    obtain ⟨lines, unwritten, waiting, conn, ha⟩ := hb
    have hstep := Bridge.step?_read hp ha.entries
    obtain ⟨ho, hc, hphase, submission, hsession, hsubmission⟩ := ha.read_same hp
    obtain ⟨hread, hless⟩ := ha.read hp
    have hcoming := coming_of_same (k := k) ho hc (by rw [hsession])
    have hwritten : b.read.session.written = b.session.written := by rw [hsession]
    rw [← hwritten] at hlt
    obtain ⟨lines', unwritten', waiting', conn', ha'⟩ := id hread
    have hunwritten := ha'.unwritten_ne_nil hlt
    rcases hsubmission with rfl | ⟨text, rfl⟩
    · have hprompting := ha'.prompting
      rw [hsession] at hprompting
      cases hp' : b.read.phase with
      | reading =>
        obtain ⟨next, text, hleads, hs, hw, hcome⟩ := ih _ (h ▸ hless) hread hp' hlt rfl
        exact ⟨next, text, .cons hstep trivial hleads, hs, hw.trans hwritten,
          hcome.trans hcoming⟩
      | waiting => exact (hphase hp').elim
      | submitting =>
        rw [hp'] at hprompting
        cases hprompting
      | ended exit =>
        rw [hp'] at hprompting
        exact (hunwritten hprompting.of_ended).elim
    · have hs : b.read.session.submission = .sized text := by rw [hsession]
      have htake := Bridge.step?_take (ha'.prompting.phase_eq (by simp [hs])) hs ha'.unclosed
      refine ⟨_, text, .cons hstep trivial (.cons htake rfl (.refl _)), rfl, hwritten, ?_⟩
      rw [← hcoming]
      exact coming_of_same rfl rfl rfl

/-- A receiver that has a frame in hand gives the lock back by itself. -/
theorem exists_release (k : Nat) (h : b.session.receiver.inHand = 1) :
    ∃ next, b.Leads next ∧ next.phase = b.phase ∧ next.session.lock = .idle ∧
      next.session.written = b.session.written ∧ next.coming k = b.coming k := by
  cases hr : b.session.receiver with
  | printed =>
    exact ⟨_, .cons (Bridge.step?_release hr) trivial (.refl _), rfl, rfl, rfl,
      coming_of_same rfl rfl rfl⟩
  | holding frame =>
    exact ⟨_, .cons (Bridge.step?_print hr) trivial
      (.cons (Bridge.step?_release rfl) trivial (.refl _)), rfl, rfl, rfl,
      coming_of_same rfl rfl rfl⟩
  | unstarted | waiting | ending | stopped =>
    rw [hr] at h
    cases h

/-- The host and the receiver go on by themselves until the lock is given back, which takes one
frame. -/
theorem Sound.exists_idle (hb : Sound c k m texts b) (hp : b.phase = .waiting) :
    ∃ next, b.Leads next ∧ next.phase = .waiting ∧ next.session.lock = .idle ∧
      next.session.written = b.session.written ∧ b.coming k ≤ next.coming k + 1 := by
  induction h : b.rank using less_wellFounded.induction generalizing b with
  | h rank ih =>
    obtain ⟨lines, unwritten, waiting, conn, ha⟩ := id hb
    have hreceiving := ha.receiving
    cases hr : b.session.receiver with
    | unstarted | ending | stopped =>
      rw [hr] at hreceiving
      cases hreceiving
    | holding | printed =>
      obtain ⟨next, hleads, hphase, hlock, hw, hcoming⟩ := exists_release k (by rw [hr]; rfl)
      exact ⟨next, hleads, hphase.trans hp, hlock, hw, by omega⟩
    | waiting =>
      cases hin : b.session.inbox with
      | cons frame rest =>
        have hstep := Bridge.step?_receive hr hin
        obtain ⟨next, hleads, hphase, hlock, hw, hcoming⟩ := exists_release k
          (b := { b with
            session := { b.session with receiver := .holding frame, inbox := rest } }) rfl
        refine ⟨next, .cons hstep trivial hleads, hphase.trans hp, hlock, hw, ?_⟩
        rw [hcoming]
        simp only [Bridge.coming, hin, List.length_cons]
        exact Nat.le_of_eq (Nat.add_right_comm _ _ _)
      | nil =>
        cases hdone : conn.isDone with
        | true =>
          have hlock := ha.lock_idle hp hr hin hdone
          exact ⟨b, .refl b, hp, hlock, rfl, Nat.le_succ _⟩
        | false =>
          obtain ⟨move, hq, hsome⟩ := ha.exists_host hdone
          obtain ⟨after, hstep⟩ := Option.isSome_iff_exists.1 hsome
          obtain ⟨host, sent, hhost, hsent, rfl⟩ := ha.exists_of_host hq hstep
          obtain ⟨hafter, hless⟩ := ha.host hq hhost hsent
          have hcoming := ha.coming_host (k := k) hq hhost hsent
          obtain ⟨next, hleads, hphase, hlock, hw, hcome⟩ := ih _ (h ▸ hless) hafter hp rfl
          rw [hcoming] at hcome
          exact ⟨next, .cons hstep hq hleads, hphase, hlock, hw, hcome⟩

/-- A prompt that waits goes on to the next text once one frame was received. -/
theorem Sound.exists_locked_of_waiting (hb : Sound c k m texts b) (hfits : ∀ t ∈ texts, Fits c t)
    (hp : b.phase = .waiting) (hlt : b.session.written.length < texts.length) :
    ∃ next text, b.Leads next ∧ next.session.submission = .locked text ∧
      next.session.written = b.session.written ∧ b.coming k ≤ next.coming k + 1 := by
  obtain ⟨idle, hleads, hphase, hlock, hwritten, hcoming⟩ := hb.exists_idle (k := k) hp
  have hidle := hb.of_leads hfits hleads
  have hwake := Bridge.step?_wake hphase hlock
  have hquiet : Bridge.Move.IsQuiet .wake := trivial
  obtain ⟨next, text, hleads', hs, hwritten', hcoming'⟩ :=
    (hidle.step hfits hquiet hwake).1.exists_locked (k := k) rfl (hwritten ▸ hlt)
  have hsame : Bridge.coming k { idle with phase := .reading } = idle.coming k := rfl
  refine ⟨next, text, hleads.trans (.cons hwake hquiet hleads'), hs, hwritten'.trans hwritten, ?_⟩
  omega

/-- From one text on to the next, all that answers the text is to come but for one frame. -/
theorem Sound.exists_next (hb : Sound c k m texts b) (hf : Flow k m b)
    (hfits : ∀ t ∈ texts, Fits c t) {text : String} (hs : b.session.submission = .locked text)
    (hlt : b.session.written.length + 1 < texts.length) {n : Nat}
    (hn : (frameCounts k m texts)[b.session.written.length]? = some n) :
    ∃ next text', b.Leads next ∧ next.session.submission = .locked text' ∧
      next.session.written.length = b.session.written.length + 1 ∧
      b.coming k + n ≤ next.coming k + 1 := by
  obtain ⟨lines, unwritten, waiting, conn, ha⟩ := id hb
  have hp : b.phase = .submitting := ha.prompting.phase_eq (by simp [hs])
  have hquiet : Bridge.Move.IsQuiet (.submit none) := rfl
  have hwrite := Bridge.step?_write hp hs
  obtain ⟨isOpen, hsettle⟩ := Bridge.step?_settle (b := b.withWritten text) hp rfl
  have hwaiting := ((hb.step hfits hquiet hwrite).1.step hfits hquiet hsettle).1
  obtain ⟨next, text', hleads, hs', hwritten, hnext⟩ :=
    hwaiting.exists_locked_of_waiting (k := k) hfits rfl (by simpa using hlt)
  have hcoming := hf.coming_write ha hfits hs
  rw [ha.sentTexts_append hs, ha.sentTexts_eq_take, sum_frameCounts_succ hn] at hcoming
  refine ⟨next, text', .cons hwrite hquiet (.cons hsettle hquiet hleads), hs', ?_, ?_⟩
  · rw [hwritten]
    simp
  · have hsame : (b.withWritten text).coming k ≤ next.coming k + 1 := hnext
    omega

/-- Every text is about to be sent at some time. -/
theorem Sound.exists_locked_at (hb : Sound c k m texts b) (hf : Flow k m b)
    (hfits : ∀ t ∈ texts, Fits c t) (hp : b.phase = .reading) (hw : b.session.written = [])
    {w : Nat} (hlt : w < texts.length) :
    ∃ next text, b.Leads next ∧ next.session.submission = .locked text ∧
      next.session.written.length = w := by
  induction w with
  | zero =>
    obtain ⟨next, text, hleads, hs, hwritten, -⟩ := hb.exists_locked (k := k) hp (by simpa [hw])
    exact ⟨next, text, hleads, hs, by rw [hwritten, hw]; rfl⟩
  | succ w ih =>
    obtain ⟨middle, text, hleads, hs, rfl⟩ := ih (Nat.lt_of_succ_lt hlt)
    have hcount : middle.session.written.length < (frameCounts k m texts).length := by
      rw [length_frameCounts]
      exact Nat.lt_of_succ_lt hlt
    obtain ⟨next, text', hleads', hs', hw', -⟩ :=
      (hb.of_leads hfits hleads).exists_next (hf.of_leads hb hfits hleads) hfits hs hlt
        (List.getElem?_eq_getElem hcount)
    exact ⟨next, text', hleads.trans hleads', hs', hw'⟩

/-- Whatever the prompt, the receiver and the host do, and in whatever order : nothing that was sent
is unanswered, and no answer is under way, when the next text is sent, if and only if each text but
the last is answered in a single frame. A text that prints, or whose value is long, is not. -/
theorem nothingInFlight_iff (c k : Nat) (handles : List Resource.Handle) (m : Memory)
    (lines : List String) (hplain : ∀ t ∈ sendable c "" lines, Wire.IsPlain t) :
    (∀ b text, (Bridge.start c k (.new handles m) (lines.map .line)).Leads b →
      b.session.submission = .locked text → b.NothingInFlight) ↔
    ∀ n ∈ (frameCounts k m (sendable c "" lines)).dropLast, n = 1 := by
  have hfits := fits_of_mem_sendable hplain
  have hstart := Sound.start c k handles m lines
  have hflow := Flow.start c k handles m lines
  constructor
  · intro hall n hn
    refine Classical.byContradiction fun hne => ?_
    obtain ⟨w, hw, hcount⟩ := List.getElem_of_mem hn
    rw [List.length_dropLast, length_frameCounts] at hw
    rw [List.getElem_dropLast] at hcount
    obtain ⟨b, text, hleads, hs, rfl⟩ :=
      hstart.exists_locked_at hflow hfits rfl rfl (w := w) (by omega)
    obtain ⟨next, text', hleads', hs', -, hcoming⟩ :=
      (hstart.of_leads hfits hleads).exists_next (hflow.of_leads hstart hfits hleads) hfits hs
        (by omega) (List.getElem?_eq_some_iff.2 ⟨_, hcount⟩)
    have hle := one_le_of_mem_frameCounts ((List.dropLast_sublist _).subset hn)
    have hnothing := hall next text' (hleads.trans hleads') hs'
    have hzero := coming_of_nothingInFlight (k := k)
      (hstart.of_leads hfits (hleads.trans hleads')) hnothing
    omega
  · intro hone b text hleads hs
    have hb := hstart.of_leads hfits hleads
    have hf := hflow.of_leads hstart hfits hleads
    obtain ⟨_, _, _, _, ha⟩ := id hb
    have hsum : (frameCounts k m b.sentTexts).sum ≤ b.sentTexts.length := by
      rw [← length_frameCounts k m b.sentTexts]
      refine Nat.le_of_eq (sum_eq_length fun n hn => hone n ?_)
      rw [ha.sentTexts_eq_take, frameCounts_take] at hn
      have hlt := ha.written_lt hs
      rw [List.dropLast_eq_take, length_frameCounts]
      exact List.take_subset_take_left _ (by omega) hn
    exact nothingInFlight_of_coming hb hf (hf.coming_of_locked hs hsum)

/-- Only the last line prints, and so nothing is ever in flight when a line is sent. -/
theorem nothingInFlight_two_lines :
    (∀ t ∈ sendable 4096 "" ["x = 1", "print(x)"], Wire.IsPlain t) ∧
    ∀ b text,
      (Bridge.start 4096 8192 (.new [] .empty) (["x = 1", "print(x)"].map .line)).Leads b →
      b.session.submission = .locked text → b.NothingInFlight := by
  have hplain : ∀ t ∈ sendable 4096 "" ["x = 1", "print(x)"], Wire.IsPlain t := by
    have hs : sendable 4096 "" ["x = 1", "print(x)"] = ["x = 1", "print(x)"] := by
      decide +kernel
    rw [hs]
    decide
  have hcounts : ∀ n ∈ (frameCounts 8192 .empty
      (sendable 4096 "" ["x = 1", "print(x)"])).dropLast, n = 1 := by
    decide +kernel
  exact ⟨hplain, (nothingInFlight_iff 4096 8192 [] .empty _ hplain).2 hcounts⟩

/-- What is printed gives the lock back, and the next line is sent before the first is answered. -/
def overtaking : List Bridge.Move :=
  [.read, .submit none, .submit none, .submit none, .host (.read 0), .host (.begin 0 .quiet),
    .host (.print 0), .host (.write 0), .receive, .receive, .receive, .wake, .read, .submit none]

/-- The second of two lines is sent while the first, which prints, is evaluated. -/
theorem not_all_nothingInFlight :
    ¬∀ c k handles m (lines : List String) b text,
      (Bridge.start c k (.new handles m) (lines.map .line)).Leads b →
      b.session.submission = .locked text → b.NothingInFlight := by
  intro h
  have hrun : ((Bridge.start 4096 8192 (.new [] .empty)
      (["print(1)", "2"].map .line)).run? overtaking).any
        (fun b => b.session.submission = .locked "2" && !b.served.isDone) = true := by
    decide +kernel
  obtain ⟨b, hb, hflight⟩ := (Option.any_eq_true _ _).1 hrun
  obtain ⟨hlocked, hdone⟩ : b.session.submission = .locked "2" ∧ b.served.isDone = false := by
    simpa using hflight
  have hquiet : ∀ move ∈ overtaking, Bridge.Move.IsQuiet move := by
    simp [overtaking, Bridge.Move.IsQuiet, Host.Move.IsQuiet]
  have hnothing := h 4096 8192 [] .empty _ b "2" (Bridge.leads_of_run hquiet hb) hlocked
  rw [hnothing.2] at hdone
  cases hdone

end RemoteEval.Shell
