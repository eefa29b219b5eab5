import RemoteEval.Host.Service
import RemoteEval.Proofs.Host.Progress
import RemoteEval.Proofs.Resource.LoadOrder
import RemoteEval.Proofs.Wire.Frames

/-!
# A shell that asks for the resources

A shell connects and asks for the resources before it sends anything else (`asked`). Whatever the
host is doing for others, it sends this shell one payload that lists the resources and nothing more,
if it receives the request in one piece (`answers_iff`).
-/

namespace RemoteEval.Host

open Wire (Frame Sentinel)

variable {capacity : Nat} {handles : List Resource.Handle} {h next : Host}

theorem listReply_eq (handles : List Resource.Handle) : listReply handles =
    if Resource.orderedIdentities handles = [] then Sentinel.noValue.octets
    else Text.encode (Wire.joinIdentities (Resource.orderedIdentities handles)) := by
  rw [listReply, Resource.orderedIdentities]
  cases Resource.loadOrder handles <;> simp

namespace Shuffle

variable {α : Type} {xs ys zs : List α}

theorem length_eq (h : Shuffle xs ys zs) : zs.length = xs.length + ys.length := by
  induction h with
  | nil => rfl
  | left _ ih | right _ ih => simp only [List.length_cons, ih]; omega

theorem eq_right (h : Shuffle [] ys zs) : zs = ys := by
  generalize hxs : ([] : List α) = xs at h
  induction h with
  | nil => rfl
  | left _ _ => cases hxs
  | right _ ih => rw [ih hxs]

end Shuffle

/-- A host where a shell has just connected and asked for the resources. -/
def asked (capacity : Nat) (h : Host) : Host :=
  h.connect.2.arrive capacity h.connect.1 Sentinel.resources.octets

/-- What was sent to the shell that connected to `h`. -/
def heardSince (h next : Host) : List (List UInt8) :=
  (next.connection h.connect.1).sent

/-- However a host that lists `handles` goes on after a shell has asked it for the resources, it can
come to send the shell something, and `P` holds of what it has sent once that is something. -/
def Answers (capacity : Nat) (handles : List Resource.Handle) (P : List (List UInt8) → Prop) :
    Prop :=
  ∀ h : Host, h.handles = handles → ∀ moves next, (h.asked capacity).run? moves = some next →
    (∃ more last, next.run? more = some last ∧ h.heardSince last ≠ []) ∧
      (h.heardSince next ≠ [] → P (h.heardSince next))

theorem heardSince_eq {d : Connection} (hd : next.connections[h.connect.1]? = some d) :
    h.heardSince next = d.sent := by
  rw [heardSince, connection, hd, Option.getD_some]

/-- A request that is received in one piece waits as one frame. -/
theorem connections_asked (hfits : Sentinel.resources.octets.length ≤ Wire.receiveSize capacity)
    (h : Host) : (h.asked capacity).connections[h.connect.1]? =
      some (.ofFrames [Sentinel.resources.octets]) := by
  have hframes : Wire.frames capacity Sentinel.resources.octets = [Sentinel.resources.octets] :=
    Wire.frames_eq_singleton (by decide) hfits
  have hnew : h.connect.2.connections[h.connect.1]? = some (.ofFrames []) := by simp [connect]
  rw [asked, connections_arrive hnew, hframes]
  rfl

theorem requests_ofFrames_request :
    requests (Connection.ofFrames [Sentinel.resources.octets]).incoming = 1 := by
  decide

/-- What the request leads to : nothing yet, or the list of the resources. -/
theorem Progress.sent_of_request {evaluations : List Evaluation} {posted : List (List UInt8)}
    {lists : Nat} {d : Connection}
    (hp : Progress handles (.ofFrames [Sentinel.resources.octets]) evaluations posted lists d) :
    d.sent = [] ∨ d.sent = [listReply handles] := by
  obtain ⟨hcommands, hrequests, hanswers, new, hsent, hnew⟩ := hp
  have hnone : Connection.awaiting (.ofFrames [Sentinel.resources.octets]) = [] := by decide
  -- a request is no command, so that all that is posted are lists, at most one
  obtain ⟨hevaluations, -⟩ := List.append_eq_nil_iff.1 (hcommands.symm.trans hnone)
  obtain rfl := List.map_eq_nil_iff.1 hevaluations
  obtain ⟨rfl, -⟩ := List.append_eq_nil_iff.1 hanswers.symm
  obtain rfl := hnew.eq_right
  replace hsent : d.sent ++ d.outgoing = List.replicate lists (listReply handles) := by
    simpa [Connection.ofFrames] using hsent
  rw [requests_ofFrames_request] at hrequests
  have hlists : lists = 0 ∨ lists = 1 := by omega
  rcases hlists with rfl | rfl
  · exact .inl (List.append_eq_nil_iff.1 hsent).1
  · rcases List.append_eq_singleton_iff.1 hsent with ⟨hd, -⟩ | ⟨hd, -⟩
    · exact .inl hd
    · exact .inr hd

/-- What a shell has heard whose request was received in one piece. -/
theorem heardSince_of_request
    (hfits : Sentinel.resources.octets.length ≤ Wire.receiveSize capacity) {moves : List Move}
    (hrun : (h.asked capacity).run? moves = some next) (hne : h.heardSince next ≠ []) :
    h.heardSince next = [listReply h.handles] := by
  obtain ⟨-, d, hd, evaluations, posted, lists, hp⟩ :=
    exists_progress_of_run (connections_asked hfits h) hrun
  rw [heardSince_eq hd] at hne ⊢
  exact hp.sent_of_request.resolve_left hne

/-- Once nothing is left to do on the connection, the request is answered. -/
theorem Progress.sent_ne_nil_of_request {evaluations : List Evaluation} {posted : List (List UInt8)}
    {lists : Nat} {d : Connection}
    (hp : Progress handles (.ofFrames [Sentinel.resources.octets]) evaluations posted lists d)
    (hd : d.isDone = true) : d.sent ≠ [] := by
  obtain ⟨-, new, hsent, hnew⟩ := hp.of_isDone hd
  have hlength := hnew.length_eq
  rw [requests_ofFrames_request, List.length_append, List.length_replicate] at hlength
  -- nothing was sent to this shell before, so that what is new would be empty, too
  rw [hsent]
  intro hnil
  rw [(List.append_eq_nil_iff.1 hnil).2] at hlength
  simp at hlength

/-- A shell whose request is received in one piece is sent the list of the resources, and nothing
else. -/
theorem answers_iff {P : List (List UInt8) → Prop}
    (hfits : Sentinel.resources.octets.length ≤ Wire.receiveSize capacity) :
    Answers capacity handles P ↔ P [listReply handles] := by
  constructor
  · intro ha
    obtain ⟨⟨more, last, hmore, hne⟩, -⟩ := ha (.new handles .empty) rfl [] _ rfl
    obtain ⟨-, hp⟩ := ha (.new handles .empty) rfl more last hmore
    exact heardSince_of_request hfits hmore hne ▸ hp hne
  · rintro hp h rfl moves next hrun
    refine ⟨?_, fun hne => heardSince_of_request hfits hrun hne ▸ hp⟩
    obtain ⟨more, last, -, hmore, hlast⟩ := exists_done next
    obtain ⟨-, d, hd, evaluations, posted, lists, hprogress⟩ :=
      exists_progress_of_run (connections_asked hfits h) ((run?_append hrun more).trans hmore)
    refine ⟨more, last, hmore, ?_⟩
    rw [heardSince_eq hd]
    exact hprogress.sent_ne_nil_of_request
      (List.all_eq_true.1 hlast d (List.mem_of_getElem? hd))

/-- What a shell has heard after any run, its property holds of. -/
theorem Answers.of_heard {P : List (List UInt8) → Prop} (ha : Answers capacity handles P)
    (hh : h.handles = handles) {moves : List Move} {payloads : List (List UInt8)}
    (hrun : ((h.asked capacity).run? moves).map h.heardSince = some payloads)
    (hne : payloads ≠ []) : P payloads := by
  obtain ⟨next, hnext, rfl⟩ := Option.map_eq_some_iff.1 hrun
  exact (ha h hh moves next hnext).2 hne

end RemoteEval.Host
