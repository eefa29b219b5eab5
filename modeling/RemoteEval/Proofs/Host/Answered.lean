import Mathlib.Order.WellFounded
import RemoteEval.Proofs.Host.Listing
import RemoteEval.Proofs.Script.Values
import RemoteEval.Proofs.Wire.ResourceList
import RemoteEval.Resource.Catalog

/-!
# Whether each frame is answered by octets that arrive

A host comes to an end with what it was sent, whatever it does first (`step_wellFounded`,
`isDone_of_stuck`), and then it has answered each command and each request. A payload without octets
would never arrive. The reply to a command is never one (`respond_reply_ne_nil`), but a list of
resources is, if there are some and none of them has a name (`listReply_ne_nil_iff`). So all is
answered by octets if and only if the host has no resources, or one with a name, or is not asked
(`answersAll_iff`).
-/

namespace RemoteEval.Host

open Resource (orderedIdentities)
open Wire (Sentinel)

variable {h : Host} {i : Nat} {c : Connection}

/-! ## Lists without octets -/

/-- A list of resources is sent with octets if there are none or one of them has a name. -/
theorem listReply_ne_nil_iff (handles : List Resource.Handle) :
    listReply handles ≠ [] ↔ handles = [] ∨ ∃ k ∈ handles, k.identity ≠ "" := by
  obtain ⟨hnodup, hmem, -⟩ := Resource.orderedIdentities_spec handles
  have hnamed : orderedIdentities handles ≠ [""] ↔
      handles = [] ∨ ∃ k ∈ handles, k.identity ≠ "" := by
    rw [hnodup.ne_singleton_iff, Resource.orderedIdentities_eq_nil_iff]
    simp only [hmem, List.mem_map, exists_exists_and_eq_and]
  rw [← hnamed, listReply_eq]
  split
  · next hnil => simp [hnil, Sentinel.octets]
  · next hne => simp [Text.encode_eq_nil_iff, Wire.joinIdentities_eq_empty_iff, hne]

/-! ## To the end -/

/-- A host that cannot go on has done all there is to do. -/
theorem isDone_of_stuck (hstuck : ∀ move, h.step? move = none) : h.isDone = true := by
  by_contra hd
  obtain ⟨move, -, hsome⟩ := exists_step (Bool.not_eq_true _ ▸ hd)
  rw [hstuck move] at hsome
  cases hsome

/-! ## What is answered -/

/-- What a connection `d` has sent since it was `c`, once nothing is left to do on it : what was
left to send then, the payloads of its `evaluations` and a list for each request. Each evaluation
has led to a payload with octets, and `P` holds of each list. -/
structure Answered (handles : List Resource.Handle) (P : List UInt8 → Prop) (c : Connection)
    (evaluations : List Evaluation) (d : Connection) : Prop where
  /-- The commands were evaluated. -/
  commands : c.awaiting = evaluations.map Evaluation.command
  /-- What was sent answers the commands and the requests, each in their order. -/
  sent : ∃ new, d.sent = c.sent ++ c.outgoing ++ new ∧
    Shuffle (c.worker.payloads ++ evaluations.flatMap fun e => e.response.payloads)
      (List.replicate (requests c.incoming) (listReply handles)) new
  /-- Something arrives in answer to each command. -/
  replies : ∀ e ∈ evaluations, ∃ p ∈ e.response.payloads, p ≠ []
  /-- What answers a request is as it should be. -/
  lists : ∀ p ∈ List.replicate (requests c.incoming) (listReply handles), P p

/-- Whatever a host does from now on, it answers all that a connection `c` at place `i` was sent :
each command by octets, and each request by a payload of which `P` holds. -/
structure AnswersAll (h : Host) (i : Nat) (c : Connection) (P : List UInt8 → Prop) : Prop where
  /-- It does not go on for ever. -/
  ends (run : Nat → Host) : run 0 = h → ¬∀ n, ∃ move, (run n).step? move = some (run (n + 1))
  /-- When it cannot go on, nothing is left to do. -/
  done {moves : List Move} {next : Host} : h.run? moves = some next →
    (∀ move, next.step? move = none) → ∃ d, next.connections[i]? = some d ∧ d.isDone = true
  /-- When nothing is left to do, all is answered. -/
  answered {moves : List Move} {next : Host} {d : Connection} : h.run? moves = some next →
    next.connections[i]? = some d → d.isDone = true →
      ∃ evaluations, Answered h.handles P c evaluations d

theorem Evaluation.exists_payload_ne_nil (e : Evaluation) :
    ∃ p ∈ e.response.payloads, p ≠ [] :=
  ⟨e.response.reply, by simp [Response.payloads], respond_reply_ne_nil _ _ _⟩

section AnswersAll

variable {P : List UInt8 → Prop}

theorem AnswersAll.of_lists (hc : h.connections[i]? = some c)
    (hlists : ∀ p ∈ List.replicate (requests c.incoming) (listReply h.handles), P p) :
    h.AnswersAll i c P where
  ends run _ hrun :=
    (wellFounded_iff_isEmpty_descending_chain.1 step_wellFounded).false ⟨run, hrun⟩
  done hrun hstuck := by
    obtain ⟨-, d, hd, -⟩ := exists_progress_of_run hc hrun
    exact ⟨d, hd, List.all_eq_true.1 (isDone_of_stuck hstuck) d (List.mem_of_getElem? hd)⟩
  answered hrun hd hdone := by
    obtain ⟨evaluations, hcommands, hsent⟩ := exists_evaluations_of_run hc hrun hd hdone
    exact ⟨evaluations, hcommands, hsent, fun e _ => e.exists_payload_ne_nil, hlists⟩

theorem AnswersAll.lists (ha : h.AnswersAll i c P) (hc : h.connections[i]? = some c) :
    ∀ p ∈ List.replicate (requests c.incoming) (listReply h.handles), P p := by
  obtain ⟨moves, last, -, hrun, hlast⟩ := exists_done h
  obtain ⟨-, d, hd, -⟩ := exists_progress_of_run hc hrun
  obtain ⟨evaluations, hanswered⟩ :=
    ha.answered hrun hd (List.all_eq_true.1 hlast d (List.mem_of_getElem? hd))
  exact hanswered.lists

theorem answersAll_iff_listReply (hc : h.connections[i]? = some c) :
    h.AnswersAll i c P ↔ requests c.incoming = 0 ∨ P (listReply h.handles) := by
  rw [← List.forall_mem_replicate]
  exact ⟨fun ha => ha.lists hc, .of_lists hc⟩

end AnswersAll

/-- Whatever the evaluator keeps from before, whatever the host was doing and does for others, and
whoever asks the evaluator to stop : each command on a connection is answered by octets. Each
request is, too, if and only if no request is among the frames, or the host has no resources, or one
of them has a name. -/
theorem answersAll_iff (hc : h.connections[i]? = some c) :
    (h.AnswersAll i c fun _ => True) ∧
      ((h.AnswersAll i c fun p => p ≠ []) ↔
        requests c.incoming = 0 ∨ h.handles = [] ∨ ∃ k ∈ h.handles, k.identity ≠ "") := by
  refine ⟨(answersAll_iff_listReply hc).2 (.inr trivial), ?_⟩
  rw [answersAll_iff_listReply hc, listReply_ne_nil_iff]

/-- A command that prints and a request, to a host of two resources of which one has a name. -/
theorem answersAll_two_frames :
    ∃ h : Host, ∃ c, h.connections[0]? = some c ∧
      c.incoming = [Text.encode "print(1)", Sentinel.resources.octets] ∧
      h.handles = [⟨"", ["a"]⟩, ⟨"a", [""]⟩] ∧ h.AnswersAll 0 c fun p => p ≠ [] := by
  let c := Connection.ofFrames [Text.encode "print(1)", Sentinel.resources.octets]
  let h : Host := ⟨[⟨"", ["a"]⟩, ⟨"a", [""]⟩], .empty, [c]⟩
  have hnamed : ∃ k ∈ h.handles, k.identity ≠ "" := ⟨⟨"a", [""]⟩, by simp [h], by decide⟩
  exact ⟨h, c, rfl, rfl, rfl, (answersAll_iff rfl).2.2 (.inr (.inr hnamed))⟩

/-- The catalog of a path that is empty lists a resource without a name, and the host sends no
octets to who asks for it. -/
theorem not_all_answersAll :
    ¬∀ (h : Host) (i : Nat) (c : Connection), h.memory.Reachable →
      h.connections[i]? = some c → h.AnswersAll i c fun p => p ≠ [] := by
  intro hall
  let handles := Resource.loadedResources .empty [""]
  have hnil : ¬listReply handles ≠ [] := mt (listReply_ne_nil_iff handles).1 (by decide)
  have ha := hall ⟨handles, .empty, [.ofFrames [Sentinel.resources.octets]]⟩ 0 _ .empty rfl
  have hrun : Host.run? ⟨handles, .empty, [.ofFrames [Sentinel.resources.octets]]⟩
      [.read 0, .write 0] =
        some ⟨handles, .empty, [⟨[], [], .free, [], [listReply handles]⟩]⟩ := rfl
  obtain ⟨evaluations, hanswered⟩ := ha.answered hrun rfl rfl
  exact hnil (hanswered.lists _ (List.mem_replicate.2 ⟨by decide, rfl⟩))

end RemoteEval.Host
