import RemoteEval.Resource.Loader
import RemoteEval.Shell.Prompt
import RemoteEval.Wire.ResourceList

/-!
# Loading the host's resources

Before its receiver is started, a session can ask the host which resources it has loaded, and
load each of them that is not excluded (`replay`). What cannot be loaded is counted and passed
over. `Session.loadStartup` is the whole exchange, with any loader ; `scriptLoader` is the one that
evaluates script files.
-/

namespace RemoteEval.Shell

open Wire (Frame LinkError)

/-- What came of loading resources. -/
structure LoadReport where
  /-- How many were loaded. -/
  loaded : Nat
  /-- How many are excluded. -/
  skipped : Nat
  /-- How many could not be loaded. -/
  failed : Nat
deriving DecidableEq, Repr

/-- Whether `part` occurs in a text. -/
def occursIn (part : List Char) : List Char → Bool
  | [] => part = []
  | c :: rest => part.isPrefixOf (c :: rest) || occursIn part rest

/-- Whether an identity has one of the exclusions in it. -/
def isExcluded (exclusions : List String) (identity : String) : Bool :=
  exclusions.any fun e => occursIn e.toList identity.toList

/-- Load identities in order, all but the excluded ones. -/
def replay {σ : Type} (exclusions : List String) (load : String → σ → Bool × σ) :
    List String → σ → LoadReport × σ
  | [], m => (⟨0, 0, 0⟩, m)
  | identity :: rest, m =>
    if isExcluded exclusions identity then
      let (r, m) := replay exclusions load rest m
      ({ r with skipped := r.skipped + 1 }, m)
    else
      match load identity m with
      | (true, m) =>
        let (r, m) := replay exclusions load rest m
        ({ r with loaded := r.loaded + 1 }, m)
      | (false, m) =>
        let (r, m) := replay exclusions load rest m
        ({ r with failed := r.failed + 1 }, m)

/-- Load a script file into the memory of an evaluator, and tell whether that succeeds. -/
def scriptLoader (fs : Resource.FileSystem) (identity : String) (m : Script.Memory) :
    Bool × Script.Memory :=
  match Resource.load fs identity m with
  | (.ok (), m) => (true, m)
  | (.error _, m) => (false, m)

/-- The identities that a frame lists : none for a control message. -/
def listedIdentities (frame : List UInt8) : List String :=
  match Frame.classify frame with
  | .text body => Wire.splitIdentities body
  | .sentinel _ => []

namespace Session

/-- Ask the host for its resources. A session whose receiver was started does not ask. -/
def requestResources (s : Session) : Except LinkError Session :=
  if s.receiver = .unstarted then .ok (s.writeSentinel .resources) else .error .closed

/-- Take the frame that lists the resources. -/
def takeListing (s : Session) : Except LinkError (List String) × Session :=
  match s.inbox with
  | frame :: rest => (.ok (listedIdentities frame), { s with inbox := rest })
  | [] => (.error .closed, s)

/-- Ask the host for its resources, and load those that the first frame lists of what comes in
answer. -/
def loadStartup {σ : Type} (s : Session) (answer : List Delivery) (exclusions : List String)
    (load : String → σ → Bool × σ) (m : σ) : Except LinkError (LoadReport × σ) × Session :=
  match s.requestResources with
  | .error e => (.error e, s)
  | .ok asked =>
    match (answer.foldl deliver asked).takeListing with
    | (.error e, s) => (.error e, s)
    | (.ok identities, s) => (.ok (replay exclusions load identities m), s)

end Session

end RemoteEval.Shell
