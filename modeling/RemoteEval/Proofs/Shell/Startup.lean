import Mathlib
import RemoteEval.Proofs.Host.Listing
import RemoteEval.Proofs.Resource.LoadOrder
import RemoteEval.Proofs.Wire.ResourceList
import RemoteEval.Shell.Startup

/-!
# What a shell loads before its receiver is started

A shell reads the list of resources as the host wrote it, if identities can be told apart on the
wire and the list fits one receive (`Listable`, `loadStartup_listReply`). So it calls its loader for
the resources of the catalog, those that are excluded apart, once each and dependencies first, and
counts what comes of it (`Complete`, `exchanges_complete`).
-/

namespace RemoteEval.Shell

open Host (listReply_eq)
open Resource (Handle Reaches dependenciesIn orderedIdentities orderedIdentities_eq_nil_iff)
open Wire (Frame IsPlain Sentinel)

/-! ## Exclusions -/

theorem occursIn_iff {part text : List Char} : occursIn part text = true ↔ part <:+: text := by
  induction text with
  | nil => simp [occursIn]
  | cons c rest ih =>
    rw [occursIn, Bool.or_eq_true, List.isPrefixOf_iff_prefix, ih, List.infix_cons_iff]

/-- An identity contains one of the exclusions. -/
def Excluded (exclusions : List String) (identity : String) : Prop :=
  ∃ e ∈ exclusions, e.toList <:+: identity.toList

theorem isExcluded_iff {exclusions : List String} {identity : String} :
    isExcluded exclusions identity = true ↔ Excluded exclusions identity := by
  simp only [isExcluded, Excluded, List.any_eq_true, occursIn_iff]

instance (exclusions : List String) : DecidablePred (Excluded exclusions) := fun _ =>
  decidable_of_iff _ isExcluded_iff

/-! ## The calls of a loader -/

section Replay

variable {σ : Type} (exclusions : List String) (load : String → σ → Bool × σ)

/-- A loader that keeps a record of its calls, and of which of them succeeded. -/
def recording (identity : String) (m : List (String × Bool) × σ) :
    Bool × List (String × Bool) × σ :=
  let (succeeded, after) := load identity m.2
  (succeeded, m.1 ++ [(identity, succeeded)], after)

/-- Every identity that is not excluded is loaded once, in order, and every call is counted. -/
theorem exists_calls_of_replay (ids : List String) (m : σ) (earlier : List (String × Bool)) :
    ∃ calls : List (String × Bool),
      replay exclusions (recording load) ids (earlier, m) =
        ((replay exclusions load ids m).1, earlier ++ calls, (replay exclusions load ids m).2) ∧
      calls.map Prod.fst = ids.filter (fun id => ¬Excluded exclusions id) ∧
      (replay exclusions load ids m).1 =
        ⟨calls.countP fun c => c.2, ids.countP fun id => Excluded exclusions id,
          calls.countP fun c => !c.2⟩ := by
  induction ids generalizing m earlier with
  | nil => exact ⟨[], by simp [replay], rfl, rfl⟩
  | cons id rest ih =>
    by_cases hexcluded : Excluded exclusions id
    · obtain ⟨calls, hrecorded, hcalls, hreport⟩ := ih m earlier
      refine ⟨calls, ?_, ?_, ?_⟩
      · simp [replay, isExcluded_iff.2 hexcluded, hrecorded]
      · simpa [hexcluded] using hcalls
      · simp [replay, isExcluded_iff.2 hexcluded, hreport, hexcluded]
    · have hincluded : isExcluded exclusions id = false :=
        Bool.eq_false_iff.2 fun h => hexcluded (isExcluded_iff.1 h)
      obtain ⟨⟨succeeded, after⟩, hload⟩ : ∃ r, load id m = r := ⟨_, rfl⟩
      obtain ⟨calls, hrecorded, hcalls, hreport⟩ := ih after (earlier ++ [(id, succeeded)])
      refine ⟨(id, succeeded) :: calls, ?_, by simp [hexcluded, hcalls], ?_⟩
      · cases succeeded <;> simp [replay, hincluded, recording, hload, hrecorded]
      · cases succeeded <;> simp [replay, hincluded, hload, hreport, hexcluded]

end Replay

/-! ## Nothing lost, nothing added, dependencies first -/

/-- What loading some identities came to, as the record of the loader's calls and the report tell
it. -/
structure Complete (identities : List String) (dependencies : String → List String)
    (exclusions : List String) (report : LoadReport) (calls : List (String × Bool)) : Prop where
  /-- The loader is called at most once for an identity. -/
  once : (calls.map Prod.fst).Nodup
  /-- It is called for the identities that are not excluded. -/
  called : ∀ id, id ∈ calls.map Prod.fst ↔ id ∈ identities ∧ ¬Excluded exclusions id
  /-- It is called for a dependency before what depends on it, cycles apart. -/
  ordered : ∀ x d, Resource.DependsOn identities dependencies x d →
    ¬Reaches identities dependencies d x → ¬Excluded exclusions x → ¬Excluded exclusions d →
      [d, x].Sublist (calls.map Prod.fst)
  /-- Calls that succeed are loaded. -/
  loaded : report.loaded = calls.countP fun c => c.2
  /-- All others failed. -/
  failed : report.failed = calls.countP fun c => !c.2
  /-- Excluded identities are skipped. -/
  skipped : report.skipped = identities.dedup.countP fun id => Excluded exclusions id
  /-- Every identity is counted once. -/
  total : report.loaded + report.failed + report.skipped = identities.dedup.length
  /-- Of no identities nothing is reported. -/
  empty : identities = [] → report = ⟨0, 0, 0⟩

theorem pair_sublist_of_idxOf_lt {l : List String} {d x : String} (hx : x ∈ l)
    (h : l.idxOf d < l.idxOf x) : [d, x].Sublist l := by
  induction l with
  | nil => cases hx
  | cons y rest ih =>
    by_cases hyx : y = x
    · subst hyx
      simp at h
    · have hrest : x ∈ rest := (List.mem_cons.1 hx).resolve_left (Ne.symm hyx)
      by_cases hyd : y = d
      · subst hyd
        exact (List.singleton_sublist.2 hrest).cons_cons y
      · rw [List.idxOf_cons_ne _ hyd, List.idxOf_cons_ne _ hyx] at h
        exact (ih hrest (Nat.lt_of_succ_lt_succ h)).cons y

/-- The identities in the order of loading are those of the handles without repetitions. -/
theorem orderedIdentities_perm (handles : List Handle) :
    (orderedIdentities handles).Perm (handles.map Handle.identity).dedup := by
  obtain ⟨hnodup, hmem, -⟩ := Resource.orderedIdentities_spec handles
  refine (List.perm_ext_iff_of_nodup hnodup (List.nodup_dedup _)).2 fun id => ?_
  rw [hmem, List.mem_dedup]

/-- Loading the identities in their order is complete. -/
theorem Complete.of_replay {handles : List Handle} {exclusions : List String}
    {calls : List (String × Bool)}
    (hcalls : calls.map Prod.fst =
      (orderedIdentities handles).filter fun id => ¬Excluded exclusions id) :
    Complete (handles.map Handle.identity) (dependenciesIn handles) exclusions
      ⟨calls.countP fun c => c.2,
        (orderedIdentities handles).countP fun id => Excluded exclusions id,
        calls.countP fun c => !c.2⟩ calls := by
  obtain ⟨hnodup, hmem, hbefore⟩ := Resource.orderedIdentities_spec handles
  have hperm := orderedIdentities_perm handles
  have htotal : calls.countP (fun c => c.2) + calls.countP (fun c => !c.2) +
      (orderedIdentities handles).countP (fun id => Excluded exclusions id) =
        (handles.map Handle.identity).dedup.length := by
    have hlength : calls.length =
        (orderedIdentities handles).countP fun id => ¬Excluded exclusions id := by
      rw [List.countP_eq_length_filter, ← hcalls, List.length_map]
    -- calls succeed or fail, and identities are excluded or called
    have hcounted := List.length_eq_countP_add_countP (fun c : String × Bool => c.2) (l := calls)
    have hsplit := List.length_eq_countP_add_countP
      (fun id => decide (Excluded exclusions id)) (l := orderedIdentities handles)
    simp only [decide_eq_true_eq, Bool.not_eq_true, Bool.decide_eq_false] at hcounted hsplit
    rw [← hperm.length_eq]
    omega
  refine ⟨?_, fun id => ?_, fun x d hdepends hback hx hd => ?_, rfl, rfl, hperm.countP_eq _, htotal,
    fun hnil => ?_⟩
  · rw [hcalls]
    exact hnodup.filter _
  · rw [hcalls, List.mem_filter, hmem, decide_eq_true_eq]
  · rw [hcalls]
    have hpair := pair_sublist_of_idxOf_lt ((hmem x).2 hdepends.1) (hbefore x d hdepends hback)
    simpa [hx, hd] using hpair.filter fun id => ¬Excluded exclusions id
  · rw [hnil] at htotal
    simp only [List.dedup_nil, List.length_nil] at htotal
    simp only [LoadReport.mk.injEq]
    omega

/-! ## The list of the resources -/

/-- A catalog whose list can be read by a shell that receives `k` octets at once. -/
structure Listable (k : Nat) (handles : List Handle) : Prop where
  /-- The identities can be told apart. -/
  separated : ∀ id ∈ orderedIdentities handles, Wire.separator ∉ id.toList
  /-- They are not just the empty one, whose list is that of none. -/
  named : orderedIdentities handles ≠ [""]
  /-- One receive takes the list. -/
  fits : Text.octetCount (Wire.joinIdentities (orderedIdentities handles)) ≤ Wire.receiveSize k
  /-- The list is not spelled like a control message. -/
  plain : IsPlain (Wire.joinIdentities (orderedIdentities handles))

section Listing

variable {k : Nat} {handles : List Handle}

theorem Listable.listedIdentities (hl : Listable k handles) :
    listedIdentities (Host.listReply handles) = orderedIdentities handles := by
  rw [listReply_eq]
  split
  · next hnil =>
    rw [hnil]
    decide
  · rw [Shell.listedIdentities, Frame.classify_encode hl.plain]
    exact Wire.splitIdentities_joinIdentities hl.separated hl.named

theorem Listable.frames (hl : Listable k handles)
    (hnone : handles = [] → Sentinel.noValue.octets.length ≤ Wire.receiveSize k) :
    Wire.frames k (Host.listReply handles) = [Host.listReply handles] := by
  rw [listReply_eq]
  split
  · next hnil =>
    exact Wire.frames_eq_singleton (by decide) (hnone (orderedIdentities_eq_nil_iff.1 hnil))
  · next hne =>
    refine Wire.frames_eq_singleton (fun hempty => ?_) hl.fits
    rcases Wire.joinIdentities_eq_empty_iff.1 (Text.encode_eq_nil_iff.1 hempty) with h | h
    · exact hne h
    · exact hl.named h

/-- A shell that is sent the list loads the identities in their order. -/
theorem Listable.loadStartup (hl : Listable k handles)
    (hnone : handles = [] → Sentinel.noValue.octets.length ≤ Wire.receiveSize k) {σ : Type}
    (a : Nat) (exclusions : List String) (load : String → σ → Bool × σ) (m : σ) :
    ((Session.new a k).loadStartup [.payload (Host.listReply handles)] exclusions load m).1 =
      .ok (replay exclusions load (orderedIdentities handles) m) := by
  simp only [Session.loadStartup, Session.requestResources, Session.new, if_true,
    Session.writeSentinel, List.foldl_cons, List.foldl_nil, Session.deliver, Bool.false_eq_true,
    if_false, Session.arrive, hl.frames hnone, List.nil_append, Session.takeListing,
    hl.listedIdentities]

end Listing

/-! ## The exchange -/

/-- A shell that receives `k` octets at once and is sent `payloads` loads all that `handles` list
and that it does not exclude, with any loader. -/
def LoadedAll (k : Nat) (handles : List Handle) (dependencies : String → List String)
    (payloads : List (List UInt8)) : Prop :=
  ∀ (a : Nat) (exclusions : List String) (σ : Type) (load : String → σ → Bool × σ) (m : σ),
    ∃ report calls after,
      ((Session.new a k).loadStartup (payloads.map .payload) exclusions load m).1 =
        .ok (report, after) ∧
      ((Session.new a k).loadStartup (payloads.map .payload) exclusions (recording load)
        ([], m)).1 = .ok (report, calls, after) ∧
      Complete (handles.map Handle.identity) dependencies exclusions report calls

/-- The same of whatever a host that receives `c` octets at once answers to the shell. -/
def LoadsAll (c k : Nat) (handles : List Handle) (dependencies : String → List String) : Prop :=
  Host.Answers c handles (LoadedAll k handles dependencies)

/-- The exchange loses, adds and reorders nothing, if the host receives the request in one piece and
the shell the answer. The dependencies of an identity are those of its first handle. -/
theorem Listable.loadsAll {c k : Nat} {handles : List Handle} (hl : Listable k handles)
    (hrequest : Sentinel.resources.octets.length ≤ Wire.receiveSize c)
    (hnone : handles = [] → Sentinel.noValue.octets.length ≤ Wire.receiveSize k) :
    LoadsAll c k handles (dependenciesIn handles) := by
  refine (Host.answers_iff hrequest).2 fun a exclusions σ load m => ?_
  obtain ⟨calls, hrecorded, hcalls, hreport⟩ :=
    exists_calls_of_replay exclusions load (orderedIdentities handles) m []
  refine ⟨_, calls, _, hl.loadStartup hnone a exclusions load m, ?_, ?_⟩
  · have hload := hl.loadStartup hnone a exclusions (recording load) ([], m)
    rw [hrecorded, List.nil_append] at hload
    exact hload
  · rw [hreport]
    exact .of_replay hcalls

/-- Handles of which two are in a cycle, and one has an identity that came before. -/
def tangled : List Handle :=
  [⟨"b", ["a"]⟩, ⟨"a", ["c", "x"]⟩, ⟨"c", ["a"]⟩, ⟨"a", []⟩, ⟨"d", ["b"]⟩]

/-- Request and list are of the largest size that is received in one piece. -/
theorem loadsAll_tangled :
    Listable 7 tangled ∧ Sentinel.resources.octets.length ≤ Wire.receiveSize 7 ∧
      LoadsAll 7 7 tangled (dependenciesIn tangled) := by
  have hids : orderedIdentities tangled = ["c", "a", "b", "d"] := by cbv
  have hl : Listable 7 tangled := by
    constructor <;> rw [hids] <;> decide
  exact ⟨hl, by decide, hl.loadsAll (by decide) (fun hnil => by cases hnil)⟩

/-- A loader that fails. -/
def noLoader (_ : String) (m : Unit) : Bool × Unit := (false, m)

theorem LoadedAll.complete {k : Nat} {handles : List Handle} {dependencies : String → List String}
    {payloads : List (List UInt8)} (h : LoadedAll k handles dependencies payloads)
    {report : LoadReport} {calls : List (String × Bool)}
    (hload : ((Session.new 0 k).loadStartup (payloads.map .payload) [] (recording noLoader)
      ([], ())).1 = .ok (report, calls, ())) :
    Complete (handles.map Handle.identity) dependencies [] report calls := by
  obtain ⟨report', calls', after, -, hload', hc⟩ := h 0 [] Unit noLoader ()
  obtain ⟨rfl, rfl, -⟩ : report = report' ∧ calls = calls' ∧ () = after := by
    simpa using hload.symm.trans hload'
  exact hc

/-- The dependencies of an identity that any of its handles names. -/
def allDependencies (handles : List Handle) (identity : String) : List String :=
  (handles.filter fun h => h.identity = identity).flatMap Handle.dependencies

/-- One handle. -/
def single : List Handle := [⟨"/s/lib", []⟩]

/-- What is said of the first six octets of a request if they are taken for a command. -/
def mistaken : String := "SyntaxError: (1,1): unexpected character `\x06`"

/-- A host that receives six octets at once takes the first six of the request for a command. -/
theorem heardSince_six : (((Host.new single .empty).asked 6).run?
    [.read 0, .begin 0 .quiet, .finish 0, .answer 0, .write 0]).map
      (Host.heardSince (.new single .empty)) = some [Text.encode mistaken] := by
  decide +kernel

theorem not_loadsAll_single : ¬LoadsAll 6 8192 single (allDependencies single) := by
  intro h
  have hload : ((Session.new 0 8192).loadStartup ([Text.encode mistaken].map .payload) []
      (recording noLoader) ([], ())).1 = .ok (⟨0, 0, 1⟩, [(mistaken, false)], ()) := by
    decide +kernel
  have hcalled := ((h.of_heard rfl heardSince_six (by simp)).complete hload).called
  exact absurd ((hcalled _).1 (List.mem_singleton_self _)).1 (by decide)

/-- Handles of one identity that do not agree on what it depends on. -/
def divided : List Handle := [⟨"a", []⟩, ⟨"a", ["b"]⟩, ⟨"b", []⟩]

/-- A shell that receives seven octets at once takes the first seven of the answer of a host without
resources for the name of one. -/
theorem not_loadsAll_nil : ¬LoadsAll 4096 7 [] (allDependencies []) := by
  intro h
  have hall := (Host.answers_iff (by decide)).1 h
  rw [listReply_eq, if_pos (orderedIdentities_eq_nil_iff.2 rfl)] at hall
  have hload : ((Session.new 0 7).loadStartup ([Sentinel.noValue.octets].map .payload) []
      (recording noLoader) ([], ())).1 = .ok (⟨0, 0, 1⟩, [("\x06_NONO_", false)], ()) := by
    decide +kernel
  have hempty := (hall.complete hload).empty rfl
  cases hempty

/-- What only a later handle of an identity depends on is not seen. -/
theorem not_loadsAll_divided (hl : Listable 8192 divided)
    (hids : orderedIdentities divided = ["a", "b"]) :
    ¬LoadsAll 4096 8192 divided (allDependencies divided) := by
  intro h
  have hall := (Host.answers_iff (by decide)).1 h
  have hload := hl.loadStartup (fun hnil => by cases hnil) 0 [] (recording noLoader) ([], ())
  rw [hids] at hload
  have hdepends :
      Resource.DependsOn (divided.map Handle.identity) (allDependencies divided) "a" "b" :=
    ⟨by decide, by decide, by decide⟩
  have hback : ¬Reaches (divided.map Handle.identity) (allDependencies divided) "b" "a" := by
    intro hreaches
    rcases hreaches.cases_head with heq | ⟨y, hy, -⟩
    · exact absurd heq (by decide)
    · have hnone : allDependencies divided "b" = [] := by decide
      rw [Resource.DependsOn, hnone] at hy
      exact List.not_mem_nil hy.2.2
  have hordered := (hall.complete hload).ordered "a" "b" hdepends hback
  exact absurd (hordered (by decide) (by decide)) (by decide)

/-- Each of the sizes matters, and a later handle of an identity does not count. -/
theorem not_all_loadsAll :
    (Listable 8192 single ∧ ¬LoadsAll 6 8192 single (allDependencies single)) ∧
      (Listable 7 [] ∧ ¬LoadsAll 4096 7 [] (allDependencies [])) ∧
      (Listable 8192 divided ∧ ¬LoadsAll 4096 8192 divided (allDependencies divided)) := by
  have hsingle : orderedIdentities single = ["/s/lib"] := by cbv
  have hnil : orderedIdentities [] = [] := orderedIdentities_eq_nil_iff.2 rfl
  have hdivided : orderedIdentities divided = ["a", "b"] := by cbv
  have hl : Listable 8192 divided := by
    constructor <;> rw [hdivided] <;> decide
  refine ⟨⟨?_, not_loadsAll_single⟩, ⟨?_, not_loadsAll_nil⟩, hl, not_loadsAll_divided hl hdivided⟩
  · constructor <;> rw [hsingle] <;> decide
  · constructor <;> rw [hnil] <;> decide

end RemoteEval.Shell
