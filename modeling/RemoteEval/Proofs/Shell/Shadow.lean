import RemoteEval.Proofs.Shell.Startup

/-!
# The shadow of a host that has loaded scripts

A host loads the scripts of its catalog when it starts, and a shell that asks for them loads those
that the host lists, from the same files, into an evaluator of its own. Both go through the same
identities in the same order (`replay_scriptLoader`), so that they end with the same memory, with
scripts that fail half-way, too (`Listable.agrees`).
-/

namespace RemoteEval.Shell

open Host (listReply_eq)
open Resource (FileSystem FileTree Handle loadAll loadedResources orderedIdentities
  orderedIdentities_eq_nil_iff preload)
open Script (Memory)
open Wire (Sentinel)

/-- Without exclusions, a shell loads scripts as a host does. -/
theorem replay_scriptLoader (fs : FileSystem) (ids : List String) (m : Memory) :
    (replay [] (scriptLoader fs) ids m).2 = (loadAll fs ids m).2 ∧
      (replay [] (scriptLoader fs) ids m).1.loaded = (loadAll fs ids m).1 := by
  induction ids generalizing m with
  | nil => exact ⟨rfl, rfl⟩
  | cons id rest ih =>
    obtain ⟨⟨result, after⟩, hload⟩ : ∃ r, Resource.load fs id m = r := ⟨_, rfl⟩
    obtain ⟨hmemory, hloaded⟩ := ih after
    cases result with
    | ok =>
      simp only [replay, isExcluded, List.any_nil, Bool.false_eq_true, if_false, scriptLoader,
        loadAll, hload]
      exact ⟨hmemory, congrArg (· + 1) hloaded⟩
    | error =>
      simp only [replay, isExcluded, List.any_nil, Bool.false_eq_true, if_false, scriptLoader,
        loadAll, hload]
      exact ⟨hmemory, hloaded⟩

/-- A shell that receives `k` octets at once and is sent `payloads` loads into a new evaluator what
a host loads of `handles` into one, and counts as many. -/
def Agreed (k : Nat) (fs : FileSystem) (handles : List Handle) (payloads : List (List UInt8)) :
    Prop :=
  ∀ a : Nat, ∃ report after,
    ((Session.new a k).loadStartup (payloads.map .payload) [] (scriptLoader fs) .empty).1 =
      .ok (report, after) ∧
    after = (preload fs handles .empty).2 ∧ report.loaded = (preload fs handles .empty).1

/-- The same of whatever a host that receives `c` octets at once answers to the shell. -/
def Agrees (c k : Nat) (fs : FileSystem) (handles : List Handle) : Prop :=
  Host.Answers c handles (Agreed k fs handles)

/-- After the exchange the shell's evaluator is where that of the host was, if the host receives the
request in one piece and the shell the answer. -/
theorem Listable.agrees {c k : Nat} {handles : List Handle} (hl : Listable k handles)
    (hrequest : Sentinel.resources.octets.length ≤ Wire.receiveSize c)
    (hnone : handles = [] → Sentinel.noValue.octets.length ≤ Wire.receiveSize k)
    (fs : FileSystem) : Agrees c k fs handles := by
  refine (Host.answers_iff hrequest).2 fun a => ?_
  obtain ⟨hmemory, hloaded⟩ := replay_scriptLoader fs (orderedIdentities handles) .empty
  exact ⟨_, _, hl.loadStartup hnone a [] (scriptLoader fs) .empty, hmemory, hloaded⟩

/-- Scripts of which one depends on another, one fails half-way, one is not complete and one is no
text. -/
def scripts : FileSystem :=
  (FileTree.ofPaths "/s" [("lib", Text.encode "base = 2"),
    ("main", Text.encode "// require: lib\ntop = base + 1"),
    ("half", Text.encode "// require: main\nlow = top; low = missing"),
    ("open", Text.encode "more = ("), ("noise", [0xFF])]).fileSystem

/-- The catalog of these scripts and of one that is not there. -/
def scriptHandles : List Handle :=
  loadedResources scripts
    ["/s/gone", "/s/./half", "/s/lib", "/s/main", "/s/main", "/s/noise", "/s/open"]

theorem scriptHandles_eq : scriptHandles =
    [⟨"/s/gone", []⟩, ⟨"/s/half", ["/s/main"]⟩, ⟨"/s/lib", []⟩, ⟨"/s/main", ["/s/lib"]⟩,
      ⟨"/s/main", ["/s/lib"]⟩, ⟨"/s/noise", []⟩, ⟨"/s/open", []⟩] := by
  decide +kernel

theorem orderedIdentities_scriptHandles : orderedIdentities scriptHandles =
    ["/s/gone", "/s/lib", "/s/main", "/s/half", "/s/noise", "/s/open"] := by
  have hsorted : scriptHandles.mergeSort Handle.le = scriptHandles := by
    rw [scriptHandles_eq]
    exact List.mergeSort_of_pairwise (by decide)
  rw [orderedIdentities, Resource.loadOrder, Resource.orderHandles, Resource.byIdentity, hsorted,
    scriptHandles_eq]
  cbv

theorem agrees_scripts :
    Listable 50 scriptHandles ∧ Sentinel.resources.octets.length ≤ Wire.receiveSize 4096 ∧
      Agrees 4096 50 scripts scriptHandles := by
  have hl : Listable 50 scriptHandles := by
    constructor <;> rw [orderedIdentities_scriptHandles] <;> decide
  have hne : scriptHandles ≠ [] := by simp [scriptHandles_eq]
  exact ⟨hl, by decide, hl.agrees (by decide) (fun hnil => (hne hnil).elim) scripts⟩

theorem Agreed.loaded_eq {k : Nat} {fs : FileSystem} {handles : List Handle}
    {payloads : List (List UInt8)} (h : Agreed k fs handles payloads) {report : LoadReport}
    (hload : ((Session.new 0 k).loadStartup (payloads.map .payload) []
      (scriptLoader fs) .empty).1.toOption.map Prod.fst = some report) :
    report.loaded = (preload fs handles .empty).1 := by
  obtain ⟨report', after, hload', -, hloaded⟩ := h 0
  rw [hload'] at hload
  obtain rfl : report' = report := Option.some.inj hload
  exact hloaded

/-- A script whose name starts like a control message. -/
def stray : FileSystem where
  canonical? path := if path = "\x06_NONO_" then some "/\x06_NONO_" else none
  read? path := if path = "\x06_NONO_" then some (Text.encode "x = 1") else none

/-- Each of the sizes matters : a host that receives six octets at once does not see the request,
and a shell that receives seven loads a script of that name although the host has none. -/
theorem not_all_agrees :
    (loadedResources scripts ["/s/lib"] = single ∧ Listable 8192 single ∧
        ¬Agrees 6 8192 scripts single) ∧
      (Listable 7 (loadedResources stray []) ∧
        ¬Agrees 4096 7 stray (loadedResources stray [])) := by
  have hsingle : orderedIdentities single = ["/s/lib"] := by cbv
  have hnil : orderedIdentities [] = [] := orderedIdentities_eq_nil_iff.2 rfl
  have hempty : loadedResources stray [] = [] := rfl
  refine ⟨⟨by decide +kernel, ?_, fun h => ?_⟩, ?_, fun h => ?_⟩
  · constructor <;> rw [hsingle] <;> decide
  · have hload : ((Session.new 0 8192).loadStartup ([Text.encode mistaken].map .payload) []
        (scriptLoader scripts) .empty).1.toOption.map Prod.fst = some ⟨0, 0, 1⟩ := by
      decide +kernel
    have hloaded := Agreed.loaded_eq (h.of_heard rfl heardSince_six (by simp)) hload
    have hpreload : (loadAll scripts ["/s/lib"] .empty).1 = 1 := by decide +kernel
    rw [preload, ← orderedIdentities, hsingle, hpreload] at hloaded
    cases hloaded
  · constructor <;> rw [hempty, hnil] <;> decide
  · have hagreed := (Host.answers_iff (by decide)).1 h
    rw [hempty, listReply_eq, if_pos hnil] at hagreed
    have hload : ((Session.new 0 7).loadStartup ([Sentinel.noValue.octets].map .payload) []
        (scriptLoader stray) .empty).1.toOption.map Prod.fst = some ⟨1, 0, 0⟩ := by
      decide +kernel
    have hloaded := hagreed.loaded_eq hload
    rw [preload, ← orderedIdentities, hnil] at hloaded
    cases hloaded

end RemoteEval.Shell
