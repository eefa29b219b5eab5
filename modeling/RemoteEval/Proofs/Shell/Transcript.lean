import RemoteEval.Proofs.Wire.Frames
import RemoteEval.Shell.Transcript

/-!
# What the lines become

A text that is sent holds some octets, is received in one frame and, unless it is spelled like a
control message, as a command (`fits_of_mem_sendable`). What stays open behind it is what the
evaluator says (`leftOpen`).
-/

namespace RemoteEval.Shell

open Wire (IsPlain)

theorem leftOpen_of_continuation? {text rest : String}
    (h : Script.continuation? text = .ok (some rest)) : leftOpen text = rest := by
  unfold Script.continuation? at h
  unfold leftOpen
  split at h <;> simp_all

theorem leftOpen_of_not_open {text : String}
    (h : ∀ rest, Script.continuation? text ≠ .ok (some rest)) : leftOpen text = "" := by
  unfold Script.continuation? at h
  unfold leftOpen
  split
  · simp_all
  · rfl

/-- A text can be sent to a host that receives `capacity` octets at once, and is received there as
a command. -/
structure Fits (capacity : Nat) (text : String) : Prop where
  /-- It holds some octets. -/
  ne_empty : text ≠ ""
  /-- It is received in one frame. -/
  octetCount_le : Text.octetCount text ≤ capacity
  /-- It is not taken for a control message. -/
  plain : IsPlain text

theorem printouts_append (k : Nat) (sent more : List (List UInt8)) :
    printouts k (sent ++ more) = printouts k sent ++ printouts k more := by
  simp [printouts]

@[simp]
theorem Dialogue.showPrompt_session {σ : Type} (d : Dialogue σ) :
    d.showPrompt.session = d.session :=
  rfl

/-- The prompt does with a line what its kind asks for. -/
theorem ite_trimmed_eq {α : Type} (line : String) (blank quit command : α) :
    (if String.ofList (Text.trim line.toList) = "" then blank
      else if String.ofList (Text.trim line.toList) ∈ quitWords then quit
      else command) =
      match LineKind.of line with
      | .blank => blank
      | .quit => quit
      | .command => command := by
  simp only [LineKind.of]
  split
  · rfl
  · split <;> rfl

theorem trim_nil : Text.trim [] = [] := rfl

theorem continued_ne_empty (pending : String) {line : String} (h : LineKind.of line = .command) :
    continued pending line ≠ "" := by
  unfold continued
  split
  · rintro rfl
    simp [LineKind.of, trim_nil] at h
  · simp

theorem fits_of_mem_sendable {capacity : Nat} {pending : String} {lines : List String}
    (hp : ∀ t ∈ sendable capacity pending lines, IsPlain t) :
    ∀ t ∈ sendable capacity pending lines, Fits capacity t := by
  fun_induction sendable capacity pending lines with
  | case1 => simp
  | case2 pending line rest hk ih => exact ih hp
  | case3 => simp
  | case4 pending line rest hk hlong ih => exact ih hp
  | case5 pending line rest hk hlong ih =>
    simp only [List.mem_cons, forall_eq_or_imp] at hp ⊢
    exact ⟨⟨continued_ne_empty pending hk, Nat.le_of_not_lt hlong, hp.1⟩, ih hp.2⟩

/-- A line is refused if the text that it continues is too long for the host. -/
theorem Session.start_eq (s : Session) (line : String) :
    s.start line =
      if s.hostCapacity < Text.octetCount (continued s.pending line) then
        .error (.tooLarge (Text.octetCount (continued s.pending line)) s.hostCapacity)
      else .ok { s with submission := .sized (continued s.pending line) } := by
  have hj : s.joined line = continued s.pending line := rfl
  by_cases hlong : s.hostCapacity < Text.octetCount (continued s.pending line) <;>
    simp [Session.start, Wire.checkSize, hj, hlong]

/-- Once a text was sent, what it leaves open is kept. -/
theorem Session.settle_eq (s : Session) (text : String) :
    ∃ isOpen,
      s.settle text = (isOpen, { s with pending := leftOpen text, submission := .none }) := by
  unfold Session.settle
  split
  · next rest hopen => exact ⟨true, by rw [leftOpen_of_continuation? hopen]⟩
  · next hnone => exact ⟨false, by rw [leftOpen_of_not_open (by simp [hnone])]⟩
  · next hnone => exact ⟨false, by rw [leftOpen_of_not_open (by simp [hnone])]⟩

/-- Payloads wait to be received, each in its frames. -/
theorem deliver_payloads {s : Session} (h : s.hungUp = false) (payloads : List (List UInt8)) :
    (payloads.map Delivery.payload).foldl Session.deliver s =
      { s with inbox := s.inbox ++ payloads.flatMap (Wire.frames s.clientCapacity) } := by
  induction payloads generalizing s with
  | nil => simp
  | cons p payloads ih =>
    have hp : s.deliver (.payload p) = s.arrive p := by simp [Session.deliver, h]
    rw [List.map_cons, List.foldl_cons, hp, ih (by simpa [Session.arrive] using h)]
    simp [Session.arrive]

end RemoteEval.Shell
