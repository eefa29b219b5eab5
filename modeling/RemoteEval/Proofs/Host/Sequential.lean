import Mathlib.Algebra.Order.Ring.Nat
import RemoteEval.Host.Schedule
import RemoteEval.Proofs.Host.Conservation

/-!
# Any order of steps is one order of commands

The commands of all connections are evaluated in the order in which their workers take them. That
order is kept beside the host (`Ordered`) : each connection has sent or queued what its commands up
to now lead to, in their order, apart from what its worker has yet to send, and a list for each
request between them (`Ledger`). A step adds at most a command to the order (`Ordered.step`), and
some steps bring every connection to its end (`exists_done`).
-/

namespace RemoteEval.Host

open Script (Memory)
open Wire (Frame)

/-! ## What frames ask for -/

section Frames

variable {frame : List UInt8} {rest : List (List UInt8)} {t : String} {s : Wire.Sentinel}

theorem commandsOf_cons_text (hf : Frame.classify frame = .text t) :
    commandsOf (frame :: rest) = t :: commandsOf rest :=
  List.filterMap_cons_some (by rw [command?, hf])

theorem commandsOf_cons_sentinel (hf : Frame.classify frame = .sentinel s) :
    commandsOf (frame :: rest) = commandsOf rest :=
  List.filterMap_cons_none (by rw [command?, hf])

theorem requests_cons_resources (hf : Frame.classify frame = .sentinel .resources) :
    requests (frame :: rest) = requests rest + 1 :=
  List.countP_cons_of_pos (by simp [hf])

theorem requests_cons_of_ne (hf : Frame.classify frame ≠ .sentinel .resources) :
    requests (frame :: rest) = requests rest :=
  List.countP_cons_of_neg (by simp [hf])

end Frames

/-! ## One connection -/

/-- What a connection has done of what its frames ask for, after the commands of all connections
in a given order : `posted` was sent or waits to be, and so do as many lists of the resources as
`lists` says. -/
structure Ledger (handles : List Resource.Handle) (m : Memory) (s : Schedule) (i : Nat)
    (frames : List (List UInt8)) (c : Connection) (posted : List (List UInt8)) (lists : Nat) :
    Prop where
  /-- Commands are evaluated, queued or not read yet. -/
  commands : commandsOf frames = s.on i ++ c.commands ++ commandsOf c.incoming
  /-- Requests are answered or not read yet. -/
  requests : requests frames = lists + requests c.incoming
  /-- The answers to the evaluated commands are posted or left to the worker. -/
  answers : s.answers i m = posted ++ c.worker.payloads
  /-- Only answers and lists are sent. -/
  sent : Shuffle posted (List.replicate lists (listReply handles)) (c.sent ++ c.outgoing)
  /-- No frame asks the evaluator to stop. -/
  uninterrupted : ∀ frame ∈ c.incoming, Frame.classify frame ≠ .sentinel .interrupt

section Ledger

variable {handles : List Resource.Handle} {m m' : Memory} {s : Schedule} {i : Nat}
variable {frames posted : List (List UInt8)} {c c' : Connection} {lists : Nat}

/-- Commands of other connections do not count. -/
theorem Ledger.of_other (hl : Ledger handles m s i frames c posted lists) {j : Nat} (hj : j ≠ i)
    (t : String) : Ledger handles m (s ++ [(j, t)]) i frames c posted lists :=
  { hl with
    commands := by simpa [hj] using hl.commands
    answers := by simpa [hj] using hl.answers }

/-- A turn takes at most one command more into the order. -/
theorem Ledger.turn (hl : Ledger handles m s i frames c posted lists) {busy : Bool} {move : Move}
    (hq : move.IsQuiet) (hi : move.place = i) (ht : Turn handles busy (s.memory m) c move m' c') :
    (m' = s.memory m ∧ ∃ posted' lists', Ledger handles m s i frames c' posted' lists') ∨
      ∃ t, m' = Schedule.memory (s ++ [(i, t)]) m ∧
        ∃ posted' lists', Ledger handles m (s ++ [(i, t)]) i frames c' posted' lists' := by
  have hcommands := hl.commands
  have hrequests := hl.requests
  have hanswers := hl.answers
  have hunread := hl.uninterrupted
  cases ht with
  | list hin hf =>
    rw [hin, commandsOf_cons_sentinel hf] at hcommands
    rw [hin, requests_cons_resources hf] at hrequests
    rw [hin] at hunread
    refine .inl ⟨rfl, posted, lists + 1, ⟨hcommands, ?_, hanswers, ?_, ?_⟩⟩
    · rw [hrequests]
      simp only [Connection.post]
      omega
    · rw [List.replicate_succ', Connection.post, ← List.append_assoc]
      exact hl.sent.snoc_right
    · exact fun frame hframe => hunread frame (List.mem_cons_of_mem _ hframe)
  | interrupt hin hf =>
    rw [hin] at hunread
    exact (hunread _ List.mem_cons_self hf).elim
  | stray hin hf =>
    rw [hin, commandsOf_cons_sentinel hf] at hcommands
    rw [hin, requests_cons_of_ne (by simp [hf])] at hrequests
    rw [hin] at hunread
    refine .inl ⟨rfl, posted, lists, ⟨hcommands, hrequests, hanswers, hl.sent, ?_⟩⟩
    exact fun frame hframe => hunread frame (List.mem_cons_of_mem _ hframe)
  | command hin hf =>
    rw [hin, commandsOf_cons_text hf] at hcommands
    rw [hin, requests_cons_of_ne (by simp [hf])] at hrequests
    rw [hin] at hunread
    refine .inl ⟨rfl, posted, lists, ⟨?_, hrequests, hanswers, hl.sent, ?_⟩⟩
    · simpa using hcommands
    · exact fun frame hframe => hunread frame (List.mem_cons_of_mem _ hframe)
  | @begin j w t rest hb hw hc =>
    obtain rfl : w = .quiet := hq
    refine .inr ⟨t, by simp, posted, lists, { hl with commands := ?_, answers := ?_ }⟩
    · simpa [hc] using hcommands
    · simpa [hw, Worker.payloads, Response.payloads] using hanswers
  | @print j d reply rest hw =>
    refine .inl ⟨rfl, posted ++ [d], lists, { hl with answers := ?_, sent := ?_ }⟩
    · simpa [hw, Worker.payloads, Connection.post] using hanswers
    · rw [Connection.post, ← List.append_assoc]
      exact hl.sent.snoc_left
  | finish hw =>
    refine .inl ⟨rfl, posted, lists, { hl with answers := ?_ }⟩
    simpa [hw, Worker.payloads] using hanswers
  | @answer j reply hw =>
    refine .inl ⟨rfl, posted ++ [reply], lists, { hl with answers := ?_, sent := ?_ }⟩
    · simpa [hw, Worker.payloads, Connection.post] using hanswers
    · rw [Connection.post, ← List.append_assoc]
      exact hl.sent.snoc_left
  | write ho =>
    refine .inl ⟨rfl, posted, lists, { hl with sent := ?_ }⟩
    simpa [ho] using hl.sent

/-- A connection that is done has sent the answers to all its commands, and all its lists. -/
theorem Ledger.of_isDone (hl : Ledger handles m s i frames c posted lists)
    (hd : c.isDone = true) :
    s.on i = commandsOf frames ∧ Shuffle (s.answers i m)
      (List.replicate (Host.requests frames) (listReply handles)) c.sent := by
  simp only [Connection.isDone, Bool.and_eq_true, decide_eq_true_eq] at hd
  obtain ⟨⟨⟨hin, hc⟩, hw⟩, ho⟩ := hd
  have hcommands := hl.commands
  have hrequests := hl.requests
  have hanswers := hl.answers
  have hsent := hl.sent
  rw [hc, hin] at hcommands
  rw [hin] at hrequests
  rw [hw, Worker.payloads, List.append_nil] at hanswers
  rw [ho, List.append_nil] at hsent
  refine ⟨by simpa [commandsOf] using hcommands.symm, ?_⟩
  rw [hanswers, hrequests]
  exact hsent

end Ledger

/-! ## All connections -/

/-- A host on whose connections frames will arrive. -/
def opened (handles : List Resource.Handle) (m : Memory) (frames : List (List (List UInt8))) :
    Host :=
  ⟨handles, m, frames.map .ofFrames⟩

/-- A host has taken commands in a given order, and done all that follows from them so far. -/
structure Ordered (handles : List Resource.Handle) (m : Memory)
    (frames : List (List (List UInt8))) (s : Schedule) (h : Host) : Prop where
  listed : h.handles = handles
  memory : h.memory = s.memory m
  length : h.connections.length = frames.length
  places : ∀ e ∈ s, e.1 < frames.length
  ledger : ∀ i c fs, h.connections[i]? = some c → frames[i]? = some fs →
    ∃ posted lists, Ledger handles m s i fs c posted lists

section Ordered

variable {handles : List Resource.Handle} {m : Memory} {frames : List (List (List UInt8))}
variable {s : Schedule} {h next : Host}

theorem Ordered.opened
    (hu : ∀ fs ∈ frames, ∀ frame ∈ fs, Frame.classify frame ≠ .sentinel .interrupt) :
    Ordered handles m frames [] (opened handles m frames) where
  listed := rfl
  memory := rfl
  length := by simp [Host.opened]
  places := by simp
  ledger i c fs hc hfs := by
    obtain rfl : Connection.ofFrames fs = c := by simpa [Host.opened, hfs] using hc
    exact ⟨[], 0, ⟨rfl, (Nat.zero_add _).symm, rfl, .nil, hu fs (List.mem_of_getElem? hfs)⟩⟩

/-- A step takes at most one command more into the order. -/
theorem Ordered.step (ho : Ordered handles m frames s h) {move : Move} (hq : move.IsQuiet)
    (hstep : h.step? move = some next) : ∃ s', Ordered handles m frames s' next := by
  obtain ⟨c, m', c', hc, ht, rfl⟩ := exists_turn hstep
  have hlt : move.place < frames.length := by
    rw [← ho.length]
    exact (List.getElem?_eq_some_iff.1 hc).1
  obtain ⟨posted, lists, hl⟩ := ho.ledger _ c _ hc (List.getElem?_eq_getElem hlt)
  rw [ho.listed, ho.memory] at ht
  obtain ⟨s', hm', hplaces, hledger, hothers⟩ : ∃ s' : Schedule, m' = s'.memory m ∧
      (∀ e ∈ s', e.1 < frames.length) ∧
      (∃ posted lists, Ledger handles m s' move.place frames[move.place] c' posted lists) ∧
      ∀ j d fs posted lists, move.place ≠ j → Ledger handles m s j fs d posted lists →
        Ledger handles m s' j fs d posted lists := by
    rcases hl.turn hq rfl ht with ⟨hm', hl'⟩ | ⟨t, hm', hl'⟩
    · exact ⟨s, hm', ho.places, hl', fun _ _ _ _ _ _ h => h⟩
    · refine ⟨s ++ [(move.place, t)], hm', ?_, hl', fun _ _ _ _ _ hne h => h.of_other hne t⟩
      intro e he
      rcases List.mem_append.1 he with he | he
      · exact ho.places e he
      · rw [List.mem_singleton.1 he]
        exact hlt
  refine ⟨s', ⟨ho.listed, hm', by simpa [put] using ho.length, hplaces, ?_⟩⟩
  intro j d fs hd hfs
  by_cases hj : move.place = j
  · subst hj
    have hset := (List.getElem?_eq_some_iff.1 hc).1
    obtain rfl : c' = d := by simpa [put, hset] using hd
    obtain rfl : frames[move.place] = fs := by simpa [hlt] using hfs
    exact hledger
  · obtain ⟨posted, lists, hl⟩ := ho.ledger j d fs (by simpa [put, hj] using hd) hfs
    exact ⟨posted, lists, hothers j d fs posted lists hj hl⟩

theorem Ordered.run (ho : Ordered handles m frames s h) {moves : List Move}
    (hq : ∀ move ∈ moves, move.IsQuiet) (hrun : h.run? moves = some next) :
    ∃ s', Ordered handles m frames s' next := by
  induction moves generalizing h s with
  | nil =>
    cases hrun
    exact ⟨s, ho⟩
  | cons move rest ih =>
    rw [run?] at hrun
    cases hstep : h.step? move with
    | none => simp [hstep] at hrun
    | some after =>
      rw [hstep] at hrun
      obtain ⟨s', ho'⟩ := ho.step (hq move List.mem_cons_self) hstep
      exact ih ho' (fun other hother => hq other (List.mem_cons_of_mem _ hother)) hrun

end Ordered

/-! ## To the end -/

theorem sum_map_set {α : Type} (f : α → Nat) {l : List α} {i : Nat} {a : α} (h : l[i]? = some a)
    (b : α) : ((l.set i b).map f).sum + f a = (l.map f).sum + f b := by
  induction l generalizing i with
  | nil => simp at h
  | cons x l ih =>
    cases i with
    | zero =>
      obtain rfl : x = a := by simpa using h
      simp only [List.set_cons_zero, List.map_cons, List.sum_cons]
      omega
    | succ i =>
      have hrest := ih (by simpa using h)
      simp only [List.set_cons_succ, List.map_cons, List.sum_cons]
      omega

/-- How far a host is from having done all it has to do. -/
def remaining (h : Host) : Nat × Nat × Nat :=
  ((h.connections.map fun c => c.work.1).sum, (h.connections.map fun c => c.work.2.1).sum,
    (h.connections.map fun c => c.work.2.2).sum)

theorem remaining_lt_of_step {h next : Host} {move : Move} (hstep : h.step? move = some next) :
    Prod.Lex (· < ·) (Prod.Lex (· < ·) (· < ·)) next.remaining h.remaining := by
  obtain ⟨c, m, c', hc, ht, rfl⟩ := exists_turn hstep
  have hfirst := sum_map_set (fun c => c.work.1) hc c'
  have hsecond := sum_map_set (fun c => c.work.2.1) hc c'
  have hthird := sum_map_set (fun c => c.work.2.2) hc c'
  have hlt := ht.work_lt
  simp only [Prod.lex_def] at hlt ⊢
  simp only [remaining, put]
  omega

/-- No host goes on for ever with what it was sent. -/
theorem step_wellFounded : WellFounded fun next h : Host => ∃ move, h.step? move = some next := by
  have hlex : WellFounded (Prod.Lex (· < ·) (Prod.Lex (· < ·) (· < ·)) :
      Nat × Nat × Nat → Nat × Nat × Nat → Prop) :=
    (Prod.lex Nat.lt_wfRel (Prod.lex Nat.lt_wfRel Nat.lt_wfRel)).wf
  refine Subrelation.wf ?_ (InvImage.wf remaining hlex)
  rintro next h ⟨move, hstep⟩
  exact remaining_lt_of_step hstep

/-- Whatever was done, some further steps do all that is left to do. -/
theorem exists_done (h : Host) :
    ∃ moves last, (∀ move ∈ moves, Move.IsQuiet move) ∧ h.run? moves = some last ∧
      last.isDone = true := by
  induction h using step_wellFounded.induction with
  | h h ih =>
    cases hd : h.isDone with
    | true => exact ⟨[], h, by simp, rfl, hd⟩
    | false =>
      obtain ⟨move, hq, hsome⟩ := exists_step hd
      obtain ⟨next, hstep⟩ := Option.isSome_iff_exists.1 hsome
      obtain ⟨moves, last, hmoves, hrun, hdone⟩ := ih next ⟨move, hstep⟩
      exact ⟨move :: moves, last, by simpa [hq] using hmoves, by simp [run?, hstep, hrun], hdone⟩

/-- Whatever the connections do, and in whatever order, all of them can come to their end ; and
once they have, there is one order of all commands that explains what was sent. It has the commands
of each connection as they came. Evaluating them in this order on one evaluator leaves the memory
that the host is left with, and on each connection the answers to its own commands, in their order,
are all that was sent, apart from one list of the resources for each request. -/
theorem exists_schedule_of_run {handles : List Resource.Handle} {m : Memory}
    {frames : List (List (List UInt8))} {moves : List Move} {h : Host}
    (hu : ∀ fs ∈ frames, ∀ frame ∈ fs, Frame.classify frame ≠ .sentinel .interrupt)
    (hq : ∀ move ∈ moves, move.IsQuiet)
    (hrun : (opened handles m frames).run? moves = some h) :
    (∃ more last, (∀ move ∈ more, Move.IsQuiet move) ∧ h.run? more = some last ∧
      last.isDone = true) ∧
    (h.isDone = true → h.connections.length = frames.length ∧ ∃ s : Schedule,
      (∀ e ∈ s, e.1 < frames.length) ∧ h.memory = s.memory m ∧
      ∀ i c fs, h.connections[i]? = some c → frames[i]? = some fs →
        s.on i = commandsOf fs ∧
        Shuffle (s.answers i m) (List.replicate (requests fs) (listReply handles)) c.sent) := by
  refine ⟨exists_done h, fun hd => ?_⟩
  obtain ⟨s, ho⟩ := (Ordered.opened hu).run hq hrun
  refine ⟨ho.length, s, ho.places, ho.memory, fun i c fs hc hfs => ?_⟩
  obtain ⟨posted, lists, hl⟩ := ho.ledger i c fs hc hfs
  exact hl.of_isDone (List.all_eq_true.1 hd c (List.mem_of_getElem? hc))

/-- The frames of two connections : one prints and asks for the resources, the other sends a stray
control message before its command. -/
def twoConnections : List (List (List UInt8)) :=
  [[Text.encode "print(x)", Wire.Sentinel.resources.octets],
    [Wire.Sentinel.noValue.octets, Text.encode "x = 2"]]

/-- The second connection is evaluated first, and the list of the resources overtakes the reply. -/
def twoConnectionsMoves : List Move :=
  [.read 0, .read 1, .read 1, .begin 1 .quiet, .finish 1, .begin 0 .quiet, .read 0, .print 0,
    .answer 1, .write 0, .finish 0, .write 1, .write 0, .answer 0, .write 0]

/-- Two connections that are served at the same time. -/
theorem exists_schedule_two_connections :
    ∃ h, (opened [] .empty twoConnections).run? twoConnectionsMoves = some h ∧
      h.isDone = true ∧ h.connections.length = 2 ∧ ∃ s : Schedule,
        (∀ e ∈ s, e.1 < 2) ∧ h.memory = s.memory .empty ∧
        ∀ i c fs, h.connections[i]? = some c → twoConnections[i]? = some fs →
          s.on i = commandsOf fs ∧
          Shuffle (s.answers i .empty) (List.replicate (requests fs) (listReply [])) c.sent := by
  have hdone : ((opened [] .empty twoConnections).run? twoConnectionsMoves).any isDone = true := by
    decide +kernel
  obtain ⟨h, hrun, hd⟩ := (Option.any_eq_true _ _).1 hdone
  have hquiet : ∀ move ∈ twoConnectionsMoves, Move.IsQuiet move := by
    simp [twoConnectionsMoves, Move.IsQuiet]
  exact ⟨h, hrun, hd, (exists_schedule_of_run (by decide) hquiet hrun).2 hd⟩

end RemoteEval.Host
