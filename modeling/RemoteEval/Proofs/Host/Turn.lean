import RemoteEval.Host.Connection

/-!
# What a move does

A move changes one connection, and at most the memory : `Turn` lists what it can make of them, and
a host takes exactly these moves (`step?_eq_some_iff`). Each of them brings the connection closer to
having done all it has to do (`Turn.work_lt`), and until all have, some move can happen
(`exists_step`).
-/

namespace RemoteEval.Host

open Script (Memory Surroundings)
open Wire (Frame)

/-- The connection whose activity makes a move. -/
def Move.place : Move → Nat
  | .read i | .begin i _ | .print i | .finish i | .answer i | .write i => i

/-- Nobody asks the evaluator to stop. -/
def Move.IsQuiet : Move → Prop
  | .begin _ w => w = .quiet
  | _ => True

/-- What a move makes of the memory and of its connection, on a host that lists `handles` and where
some worker evaluates if `busy`. -/
inductive Turn (handles : List Resource.Handle) (busy : Bool) (m : Memory) (c : Connection) :
    Move → Memory → Connection → Prop where
  | list {i : Nat} {frame : List UInt8} {rest : List (List UInt8)}
      (hin : c.incoming = frame :: rest) (hf : Frame.classify frame = .sentinel .resources) :
      Turn handles busy m c (.read i) m ({ c with incoming := rest }.post (listReply handles))
  | interrupt {i : Nat} {frame : List UInt8} {rest : List (List UInt8)}
      (hin : c.incoming = frame :: rest) (hf : Frame.classify frame = .sentinel .interrupt) :
      Turn handles busy m c (.read i) m.interrupt { c with incoming := rest }
  | stray {i : Nat} {frame : List UInt8} {rest : List (List UInt8)}
      (hin : c.incoming = frame :: rest) (hf : Frame.classify frame = .sentinel .noValue) :
      Turn handles busy m c (.read i) m { c with incoming := rest }
  | command {i : Nat} {frame : List UInt8} {rest : List (List UInt8)} {t : String}
      (hin : c.incoming = frame :: rest) (hf : Frame.classify frame = .text t) :
      Turn handles busy m c (.read i) m
        { c with incoming := rest, commands := c.commands ++ [t] }
  | begin {i : Nat} {w : Surroundings} {t : String} {rest : List String} (hb : busy = false)
      (hw : c.worker = .free) (hc : c.commands = t :: rest) :
      Turn handles busy m c (.begin i w) (respond w t m).memory
        { c with
          commands := rest
          worker := .evaluating ((respond w t m).diagnostics.map Text.encode)
            (respond w t m).reply }
  | print {i : Nat} {d reply : List UInt8} {rest : List (List UInt8)}
      (hw : c.worker = .evaluating (d :: rest) reply) :
      Turn handles busy m c (.print i) m ({ c with worker := .evaluating rest reply }.post d)
  | finish {i : Nat} {reply : List UInt8} (hw : c.worker = .evaluating [] reply) :
      Turn handles busy m c (.finish i) m { c with worker := .answering reply }
  | answer {i : Nat} {reply : List UInt8} (hw : c.worker = .answering reply) :
      Turn handles busy m c (.answer i) m ({ c with worker := .free }.post reply)
  | write {i : Nat} {p : List UInt8} {rest : List (List UInt8)} (ho : c.outgoing = p :: rest) :
      Turn handles busy m c (.write i) m { c with outgoing := rest, sent := c.sent ++ [p] }

variable {h next : Host} {move : Move}

/-- A step looks up the connection of its move. -/
theorem exists_of_bind {i : Nat} {go : Connection → Option Host}
    (hstep : h.connections[i]?.bind go = some next) :
    ∃ c, h.connections[i]? = some c ∧ go c = some next :=
  Option.bind_eq_some_iff.1 hstep

theorem exists_turn (hstep : h.step? move = some next) :
    ∃ c m c', h.connections[move.place]? = some c ∧
      Turn h.handles h.isEvaluating h.memory c move m c' ∧
      next = { h.put move.place c' with memory := m } := by
  cases move with
  | read i =>
    obtain ⟨c, hc, hstep⟩ := exists_of_bind hstep
    cases hin : c.incoming with
    | nil => simp [hin] at hstep
    | cons frame rest =>
      simp only [hin, receive] at hstep
      split at hstep <;> cases hstep
      · exact ⟨c, _, _, hc, .list hin ‹_›, rfl⟩
      · exact ⟨c, _, _, hc, .interrupt hin ‹_›, rfl⟩
      · exact ⟨c, _, _, hc, .stray hin ‹_›, rfl⟩
      · exact ⟨c, _, _, hc, .command hin ‹_›, rfl⟩
  | begin i w =>
    obtain ⟨c, hc, hstep⟩ := exists_of_bind hstep
    cases hb : h.isEvaluating with
    | true => simp [hb] at hstep
    | false =>
      simp only [hb, if_false, Bool.false_eq_true] at hstep
      split at hstep <;> cases hstep
      exact ⟨c, _, _, hc, .begin rfl ‹_› ‹_›, rfl⟩
  | print i =>
    obtain ⟨c, hc, hstep⟩ := exists_of_bind hstep
    split at hstep <;> cases hstep
    exact ⟨c, _, _, hc, .print ‹_›, rfl⟩
  | finish i =>
    obtain ⟨c, hc, hstep⟩ := exists_of_bind hstep
    split at hstep <;> cases hstep
    exact ⟨c, _, _, hc, .finish ‹_›, rfl⟩
  | answer i =>
    obtain ⟨c, hc, hstep⟩ := exists_of_bind hstep
    split at hstep <;> cases hstep
    exact ⟨c, _, _, hc, .answer ‹_›, rfl⟩
  | write i =>
    obtain ⟨c, hc, hstep⟩ := exists_of_bind hstep
    split at hstep <;> cases hstep
    exact ⟨c, _, _, hc, .write ‹_›, rfl⟩

theorem Turn.step? {c c' : Connection} {m : Memory}
    (ht : Turn h.handles h.isEvaluating h.memory c move m c')
    (hc : h.connections[move.place]? = some c) :
    h.step? move = some { h.put move.place c' with memory := m } := by
  cases ht <;> simp_all [Host.step?, receive, evaluate, Move.place, put]

/-- A host takes exactly the moves that are a turn of the connection they are about. -/
theorem step?_eq_some_iff :
    h.step? move = some next ↔
      ∃ c m c', h.connections[move.place]? = some c ∧
        Turn h.handles h.isEvaluating h.memory c move m c' ∧
        next = { h.put move.place c' with memory := m } := by
  refine ⟨exists_turn, ?_⟩
  rintro ⟨c, m, c', hc, ht, rfl⟩
  exact ht.step? hc

/-! ## What is left to do -/

/-- How far a worker is from being free. -/
def Worker.rank : Worker → Nat
  | .free => 0
  | .answering _ => 1
  | .evaluating diagnostics _ => diagnostics.length + 2

/-- How far a connection is from having done all it has to do : the frames and commands count
before the worker, and the worker before what waits to be sent. -/
def Connection.work (c : Connection) : Nat × Nat × Nat :=
  (2 * c.incoming.length + c.commands.length, c.worker.rank, c.outgoing.length)

theorem Turn.work_lt {handles : List Resource.Handle} {busy : Bool} {m m' : Memory}
    {c c' : Connection} (ht : Turn handles busy m c move m' c') :
    Prod.Lex (· < ·) (Prod.Lex (· < ·) (· < ·)) c'.work c.work := by
  simp only [Prod.lex_def, Connection.work]
  cases ht with
  | list hin | interrupt hin | stray hin =>
    left
    simp [Connection.post, hin]
  | command hin =>
    left
    simp only [hin, List.length_cons, List.length_append, List.length_nil]
    omega
  | begin hb hw hc =>
    left
    simp [hc]
  | print hw | finish hw | answer hw =>
    right
    refine ⟨rfl, .inl ?_⟩
    simp [Connection.post, Worker.rank, hw]
  | write ho =>
    right
    refine ⟨rfl, .inr ⟨rfl, ?_⟩⟩
    simp [ho]

/-- Whether nothing is left to do on any connection. -/
def isDone (h : Host) : Bool :=
  h.connections.all Connection.isDone

/-- A connection that is not done has a turn, unless another one evaluates. -/
theorem Connection.exists_turn {handles : List Resource.Handle} {busy : Bool} {m : Memory}
    {c : Connection} (hd : c.isDone = false) (hb : busy = true → c.isEvaluating = true) (i : Nat) :
    ∃ move m' c', Move.place move = i ∧ move.IsQuiet ∧ Turn handles busy m c move m' c' := by
  cases hin : c.incoming with
  | cons frame rest =>
    cases hf : Frame.classify frame with
    | text t => exact ⟨.read i, _, _, rfl, trivial, .command hin hf⟩
    | sentinel s =>
      cases s with
      | resources => exact ⟨.read i, _, _, rfl, trivial, .list hin hf⟩
      | interrupt => exact ⟨.read i, _, _, rfl, trivial, .interrupt hin hf⟩
      | noValue => exact ⟨.read i, _, _, rfl, trivial, .stray hin hf⟩
  | nil =>
    cases hw : c.worker with
    | answering reply => exact ⟨.answer i, _, _, rfl, trivial, .answer hw⟩
    | evaluating diagnostics reply =>
      cases diagnostics with
      | nil => exact ⟨.finish i, _, _, rfl, trivial, .finish hw⟩
      | cons d rest => exact ⟨.print i, _, _, rfl, trivial, .print hw⟩
    | free =>
      cases hc : c.commands with
      | cons t rest =>
        have hfree : busy = false := by
          simpa [Connection.isEvaluating, hw] using hb
        exact ⟨.begin i .quiet, _, _, rfl, rfl, .begin hfree hw hc⟩
      | nil =>
        cases ho : c.outgoing with
        | cons p rest => exact ⟨.write i, _, _, rfl, trivial, .write ho⟩
        | nil => simp [Connection.isDone, hin, hw, hc, ho] at hd

theorem Connection.isDone_eq_false {c : Connection} (he : c.isEvaluating = true) :
    c.isDone = false := by
  unfold Connection.isEvaluating at he
  split at he
  · next hw => simp [Connection.isDone, hw]
  · cases he

/-- Unless nothing is left to do, some step can happen. -/
theorem exists_step (hd : h.isDone = false) :
    ∃ move : Move, move.IsQuiet ∧ (h.step? move).isSome := by
  obtain ⟨c, hmem, hdone, hbusy⟩ : ∃ c ∈ h.connections, c.isDone = false ∧
      (h.isEvaluating = true → c.isEvaluating = true) := by
    cases hb : h.isEvaluating with
    | true =>
      obtain ⟨c, hmem, he⟩ := List.any_eq_true.1 hb
      exact ⟨c, hmem, Connection.isDone_eq_false he, fun _ => he⟩
    | false =>
      obtain ⟨c, hmem, hc⟩ := List.all_eq_false.1 hd
      exact ⟨c, hmem, by simpa using hc, by simp⟩
  obtain ⟨i, hi⟩ := List.mem_iff_getElem?.1 hmem
  obtain ⟨move, m, c', rfl, hq, ht⟩ := Connection.exists_turn hdone hbusy i
  exact ⟨move, hq, by rw [ht.step? hi, Option.isSome_some]⟩

end RemoteEval.Host
