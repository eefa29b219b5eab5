import RemoteEval.Proofs.Shell.Accounts
import RemoteEval.Proofs.Shell.Dialogue

/-!
# The bridge is transparent

To whoever reads the lines and what is printed, a shell with its host is an evaluator that evaluates
the texts that the lines become, one after another (`bridge_transparent`) : in whatever order the
prompt, the receiver and the host go on, and if each line is answered in full before the next.
-/

namespace RemoteEval.Shell

open Script (Memory)
open Wire (IsPlain)

/-- Whatever was done, everything that is left can be done ; and once it is, the texts that the
lines become were sent, and what answers them when one evaluator evaluates them in turn was printed,
in the pieces that the receiver receives. The same holds if each line is answered in full before the
next. -/
theorem bridge_transparent (c k : Nat) (handles : List Resource.Handle) (m : Memory)
    (lines : List String) (hplain : ∀ t ∈ sendable c "" lines, IsPlain t) :
    (∀ moves b, (∀ move ∈ moves, Bridge.Move.IsQuiet move) →
      (Bridge.start c k (.new handles m) (lines.map .line)).run? moves = some b →
      (∃ more drained, (∀ move ∈ more, Bridge.Move.IsQuiet move) ∧
        b.run? more = some drained ∧ drained.Drained) ∧
      (b.Drained →
        b.session.written = (sendable c "" lines).map Text.encode ∧
        b.session.printed = printouts k (Host.answers m (sendable c "" lines)))) ∧
    ∀ d, d = (Dialogue.run (.ofHost c 0) (lines.map .line)
        (.new (Session.new c k).startReceiver (Host.new handles m).connect.2)).2 →
      d.session.written = (sendable c "" lines).map Text.encode ∧
      d.session.printed = printouts k (Host.answers m (sendable c "" lines)) := by
  have hfits := fits_of_mem_sendable hplain
  refine ⟨fun moves b hq hrun => ?_, ?_⟩
  · have hb := (Sound.start c k handles m lines).run hfits hq hrun
    exact ⟨hb.exists_drained hfits, hb.settled⟩
  · rintro d rfl
    have hquiet : Dialogue.IsQuiet
        (.new (Session.new c k).startReceiver (Host.new handles m).connect.2) c k "" m :=
      ⟨rfl, rfl, rfl, rfl, rfl, rfl, rfl, handles, [], rfl⟩
    simpa [Dialogue.new, Session.startReceiver, Session.new] using Dialogue.run_eq hquiet hplain

/-- A list over two lines with a blank line between, and a line that is too long. What answers the
open list is not printed, and its value arrives in two pieces. -/
theorem bridge_transparent_open_list :
    (∀ t ∈ sendable 12 "" ["[1,", " ", "this is far too long", "22]", "quit", "a"], IsPlain t) ∧
    ∃ moves b, (∀ move ∈ moves, Bridge.Move.IsQuiet move) ∧
      (Bridge.start 12 8 (.new [] .empty)
        (["[1,", " ", "this is far too long", "22]", "quit", "a"].map .line)).run? moves = some b ∧
      b.Drained ∧ b.session.written = ["[1,", "[1,\n22]"].map Text.encode ∧
      b.session.printed = Text.encode "\x7b 1, 22 \n\x7d\n" := by
  have hs : sendable 12 "" ["[1,", " ", "this is far too long", "22]", "quit", "a"] =
      ["[1,", "[1,\n22]"] := by decide +kernel
  have hp : printouts 8 (Host.answers .empty ["[1,", "[1,\n22]"]) =
      Text.encode "\x7b 1, 22 \n\x7d\n" := by decide +kernel
  have hplain : ∀ t ∈ sendable 12 "" ["[1,", " ", "this is far too long", "22]", "quit", "a"],
      IsPlain t := by
    rw [hs]
    decide
  have hall := (bridge_transparent 12 8 [] .empty _ hplain).1
  obtain ⟨moves, b, hquiet, hrun, hdrained⟩ := (hall [] _ (by simp) rfl).1
  have hsettled := (hall moves b hquiet hrun).2 hdrained
  rw [hs, hp] at hsettled
  exact ⟨hplain, moves, b, hquiet, hrun, hdrained, hsettled⟩

end RemoteEval.Shell
