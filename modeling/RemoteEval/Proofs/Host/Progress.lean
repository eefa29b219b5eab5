import RemoteEval.Proofs.Host.Sequential

/-!
# What a connection does from any moment on

Whatever the other connections do, and whoever asks the evaluator to stop : the commands that wait
on a connection are evaluated in their order, and what the connection sends is what its worker had
yet to send, then the payloads of these evaluations, and a list of the resources for each request
between them (`Progress`). A turn of the connection keeps to this (`Progress.turn`), and turns of
others do not touch it (`connection_of_step`). Once nothing is left to do on the connection, all
commands were evaluated and all payloads were sent (`Progress.of_isDone`).
-/

namespace RemoteEval.Host

open Script (Memory Surroundings)
open Wire (Frame)

/-- A command as it is evaluated. -/
structure Evaluation where
  /-- When others ask the evaluation to stop. -/
  surroundings : Surroundings
  /-- The command. -/
  command : String
  /-- What the evaluator keeps from before. -/
  memory : Memory

/-- What an evaluation leads to. -/
def Evaluation.response (e : Evaluation) : Response :=
  respond e.surroundings e.command e.memory

/-- The commands that wait to be evaluated, whether or not they were read. -/
def Connection.awaiting (c : Connection) : List String :=
  c.commands ++ commandsOf c.incoming

/-- What a connection `d` has done since it was `c` : `evaluations` of its commands, of which
`posted` was sent or waits to be, and as many lists of the resources as `lists` says. -/
structure Progress (handles : List Resource.Handle) (c : Connection)
    (evaluations : List Evaluation) (posted : List (List UInt8)) (lists : Nat)
    (d : Connection) : Prop where
  /-- Commands are evaluated or still wait. -/
  commands : c.awaiting = evaluations.map Evaluation.command ++ d.awaiting
  /-- Requests are answered or not read yet. -/
  requests : requests c.incoming = lists + requests d.incoming
  /-- What evaluations lead to is posted or left to the worker. -/
  answers : c.worker.payloads ++ evaluations.flatMap (fun e => e.response.payloads) =
    posted ++ d.worker.payloads
  /-- Nothing else is sent. -/
  sent : ∃ new, d.sent ++ d.outgoing = c.sent ++ c.outgoing ++ new ∧
    Shuffle posted (List.replicate lists (listReply handles)) new

section Progress

variable {handles : List Resource.Handle} {m m' : Memory} {c d d' : Connection}
variable {evaluations : List Evaluation} {posted : List (List UInt8)} {lists : Nat}

theorem Progress.refl (c : Connection) : Progress handles c [] [] 0 c where
  commands := rfl
  requests := (Nat.zero_add _).symm
  answers := by simp
  sent := ⟨[], by simp, .nil⟩

theorem Progress.turn (hp : Progress handles c evaluations posted lists d) {busy : Bool}
    {move : Move} (ht : Turn handles busy m d move m' d') :
    ∃ evaluations' posted' lists', Progress handles c evaluations' posted' lists' d' := by
  obtain ⟨hcommands, hrequests, hanswers, new, hsent, hnew⟩ := hp
  simp only [Connection.awaiting] at hcommands
  cases ht with
  | list hin hf =>
    rw [hin, commandsOf_cons_sentinel hf] at hcommands
    rw [hin, requests_cons_resources hf] at hrequests
    refine ⟨evaluations, posted, lists + 1, hcommands, ?_, hanswers,
      new ++ [listReply handles], ?_, ?_⟩
    · rw [hrequests]
      simp only [Connection.post]
      omega
    · simp [Connection.post, ← List.append_assoc, hsent]
    · rw [List.replicate_succ']
      exact hnew.snoc_right
  | interrupt hin hf | stray hin hf =>
    rw [hin, commandsOf_cons_sentinel hf] at hcommands
    rw [hin, requests_cons_of_ne (by simp [hf])] at hrequests
    exact ⟨evaluations, posted, lists, hcommands, hrequests, hanswers, new, hsent, hnew⟩
  | command hin hf =>
    rw [hin, commandsOf_cons_text hf] at hcommands
    rw [hin, requests_cons_of_ne (by simp [hf])] at hrequests
    exact ⟨evaluations, posted, lists, by simpa [Connection.awaiting] using hcommands, hrequests,
      hanswers, new, hsent, hnew⟩
  | @begin i w t rest hb hw hc =>
    refine ⟨evaluations ++ [⟨w, t, m⟩], posted, lists, ?_, hrequests, ?_, new, hsent, hnew⟩
    · simpa [Connection.awaiting, hc] using hcommands
    · rw [hw, Worker.payloads, List.append_nil] at hanswers
      rw [List.flatMap_append, ← List.append_assoc, hanswers]
      simp [Worker.payloads, Evaluation.response, Response.payloads]
  | @print i p reply rest hw =>
    refine ⟨evaluations, posted ++ [p], lists, hcommands, hrequests, ?_, new ++ [p], ?_,
      hnew.snoc_left⟩
    · simpa [hw, Worker.payloads, Connection.post] using hanswers
    · simp [Connection.post, ← List.append_assoc, hsent]
  | finish hw =>
    refine ⟨evaluations, posted, lists, hcommands, hrequests, ?_, new, hsent, hnew⟩
    simpa [hw, Worker.payloads] using hanswers
  | @answer i reply hw =>
    refine ⟨evaluations, posted ++ [reply], lists, hcommands, hrequests, ?_, new ++ [reply], ?_,
      hnew.snoc_left⟩
    · simpa [hw, Worker.payloads, Connection.post] using hanswers
    · simp [Connection.post, ← List.append_assoc, hsent]
  | write ho =>
    refine ⟨evaluations, posted, lists, hcommands, hrequests, hanswers, new, ?_, hnew⟩
    rw [← hsent, ho]
    simp

/-- A connection on which nothing is left to do has evaluated all commands and sent all
payloads. -/
theorem Progress.of_isDone (hp : Progress handles c evaluations posted lists d)
    (hd : d.isDone = true) :
    c.awaiting = evaluations.map Evaluation.command ∧
      ∃ new, d.sent = c.sent ++ c.outgoing ++ new ∧
        Shuffle (c.worker.payloads ++ evaluations.flatMap fun e => e.response.payloads)
          (List.replicate (Host.requests c.incoming) (listReply handles)) new := by
  simp only [Connection.isDone, Bool.and_eq_true, decide_eq_true_eq] at hd
  obtain ⟨⟨⟨hin, hc⟩, hw⟩, ho⟩ := hd
  obtain ⟨hcommands, hrequests, hanswers, new, hsent, hnew⟩ := hp
  have hawaiting : d.awaiting = [] := by
    rw [Connection.awaiting, hc, hin]
    rfl
  rw [hawaiting, List.append_nil] at hcommands
  rw [hin] at hrequests
  rw [hw, Worker.payloads, List.append_nil] at hanswers
  rw [ho, List.append_nil] at hsent
  refine ⟨hcommands, new, hsent, ?_⟩
  rw [hanswers, hrequests]
  exact hnew

end Progress

/-! ## Steps and runs -/

section Run

variable {h next : Host} {i : Nat} {c : Connection}

/-- A step is a turn of one connection, and changes no other. -/
theorem connection_of_step {move : Move} (hstep : h.step? move = some next)
    (hc : h.connections[i]? = some c) :
    next.handles = h.handles ∧ ∃ d, next.connections[i]? = some d ∧
      (d = c ∨ ∃ m, Turn h.handles h.isEvaluating h.memory c move m d) := by
  obtain ⟨b, m, b', hb, ht, rfl⟩ := exists_turn hstep
  refine ⟨rfl, ?_⟩
  by_cases hi : move.place = i
  · subst hi
    obtain rfl : b = c := Option.some.inj (hb.symm.trans hc)
    have hlt := (List.getElem?_eq_some_iff.1 hc).1
    exact ⟨b', by simp [put, hlt], .inr ⟨m, ht⟩⟩
  · exact ⟨c, by simpa [put, hi] using hc, .inl rfl⟩

theorem run?_append {moves : List Move} (hrun : h.run? moves = some next) (more : List Move) :
    h.run? (moves ++ more) = next.run? more := by
  induction moves generalizing h with
  | nil =>
    cases hrun
    rfl
  | cons move rest ih =>
    rw [run?] at hrun
    rw [List.cons_append, run?]
    cases hstep : h.step? move with
    | none => simp [hstep] at hrun
    | some after =>
      rw [hstep] at hrun
      exact ih hrun

/-- What every turn of a connection keeps, every run keeps, whatever the other connections do. -/
theorem connection_of_run {P : Connection → Prop}
    (hturn : ∀ busy m move m' d d', P d → Turn h.handles busy m d move m' d' → P d')
    {moves : List Move} (hrun : h.run? moves = some next) (hc : h.connections[i]? = some c)
    (hp : P c) : next.handles = h.handles ∧ ∃ d, next.connections[i]? = some d ∧ P d := by
  induction moves generalizing h c with
  | nil =>
    cases hrun
    exact ⟨rfl, c, hc, hp⟩
  | cons move rest ih =>
    rw [run?] at hrun
    cases hstep : h.step? move with
    | none => simp [hstep] at hrun
    | some after =>
      rw [hstep] at hrun
      obtain ⟨hhandles, d, hd, hor⟩ := connection_of_step hstep hc
      have hpd : P d := by
        rcases hor with rfl | ⟨m, ht⟩
        · exact hp
        · exact hturn _ _ _ _ _ _ hp ht
      obtain ⟨hlast, hfound⟩ := ih (hhandles.symm ▸ hturn) hrun hd hpd
      exact ⟨hlast.trans hhandles, hfound⟩

@[simp]
theorem arrive_handles (capacity i : Nat) (payload : List UInt8) (h : Host) :
    (h.arrive capacity i payload).handles = h.handles := rfl

theorem connections_arrive (hc : h.connections[i]? = some c) (capacity : Nat)
    (payload : List UInt8) : (h.arrive capacity i payload).connections[i]? =
      some { c with incoming := c.incoming ++ Wire.frames capacity payload } := by
  have hlt := (List.getElem?_eq_some_iff.1 hc).1
  have hconnection : h.connection i = c := by rw [Host.connection, hc, Option.getD_some]
  simp only [arrive, put, hconnection, List.getElem?_set_self hlt]

/-- Every run leads a connection on as its progress says. -/
theorem exists_progress_of_run {moves : List Move} (hc : h.connections[i]? = some c)
    (hrun : h.run? moves = some next) :
    next.handles = h.handles ∧ ∃ d, next.connections[i]? = some d ∧
      ∃ evaluations posted lists, Progress h.handles c evaluations posted lists d := by
  refine connection_of_run ?_ hrun hc ⟨[], [], 0, .refl c⟩
  rintro busy m move m' d d' ⟨evaluations, posted, lists, hp⟩ ht
  exact hp.turn ht

/-- Once nothing is left to do on a connection, all commands that waited on it were evaluated, in
their order, and it has sent what its worker had yet to send, what these evaluations lead to, and a
list of the resources for each request, and nothing else. -/
theorem exists_evaluations_of_run {moves : List Move} (hc : h.connections[i]? = some c)
    (hrun : h.run? moves = some next) {d : Connection} (hd : next.connections[i]? = some d)
    (hdone : d.isDone = true) :
    ∃ evaluations : List Evaluation, c.awaiting = evaluations.map Evaluation.command ∧
      ∃ new, d.sent = c.sent ++ c.outgoing ++ new ∧
        Shuffle (c.worker.payloads ++ evaluations.flatMap fun e => e.response.payloads)
          (List.replicate (requests c.incoming) (listReply h.handles)) new := by
  obtain ⟨-, b, hb, evaluations, posted, lists, hp⟩ := exists_progress_of_run hc hrun
  obtain rfl : b = d := Option.some.inj (hb.symm.trans hd)
  exact ⟨evaluations, hp.of_isDone hdone⟩

end Run

end RemoteEval.Host
